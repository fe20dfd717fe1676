import StratumPool.Gauges

namespace StratumPool.Document

open Lib Lib.Runs StratumPool.Text StratumPool.Telemetry StratumPool.Ledger
open StratumPool.Status (rateOf written_flush redis_flush flush_of_empty execAll_append onlineRate
  totalHashrate_payload)

variable {R : Type} [Field R]

section Identity

/-- What the dashboard has of a worker's identity. -/
def shownAs (fullWorker : Str) : Str × Str := (walletOf fullWorker, workerNameOf fullWorker)

theorem shownAs_plain {worker : Str} (h : '.' ∉ worker) : shownAs worker = (worker, worker) := by
  have hparts : splitDots worker = [worker] := List.splitOn_eq_singleton h
  simp [shownAs, walletOf, workerNameOf, hparts]

theorem shownAs_dotted {wallet : Str} (h : '.' ∉ wallet) (name : Str) :
    shownAs (wallet ++ '.' :: name) = (wallet, name) := by
  have hparts : splitDots (wallet ++ '.' :: name) = wallet :: splitDots name :=
    List.splitOn_append_cons_self_of_not_mem h name
  have hlength : 1 < (splitDots (wallet ++ '.' :: name)).length := by
    rw [hparts, List.length_cons]
    have hpos := List.length_pos_of_ne_nil (List.splitOn_ne_nil '.' name)
    exact Nat.lt_add_of_pos_left hpos
  rw [shownAs, walletOf, workerNameOf, if_pos hlength, hparts]
  exact congrArg (Prod.mk wallet) (List.intercalate_splitOn '.')

theorem plain_or_dotted (worker : Str) :
    '.' ∉ worker ∨ ∃ wallet name, worker = wallet ++ '.' :: name ∧ '.' ∉ wallet := by
  by_cases h : '.' ∈ worker
  · exact .inr (List.eq_append_cons_of_mem h)
  · exact .inl h

/-- A bare wallet, and the worker of that wallet with the wallet's own name. -/
def Doubled (plain dotted : Str) : Prop := '.' ∉ plain ∧ dotted = plain ++ '.' :: plain

theorem not_doubled_dotted (wallet name b : Str) : ¬ Doubled (wallet ++ '.' :: name) b :=
  fun h => h.1 (by simp)

theorem shown_plain_dotted {a wallet name : Str} (ha : '.' ∉ a) (hw : '.' ∉ wallet) :
    shownAs a = shownAs (wallet ++ '.' :: name) ↔ Doubled a (wallet ++ '.' :: name) := by
  rw [shownAs_plain ha, shownAs_dotted hw]
  constructor
  · intro h
    obtain ⟨rfl, rfl⟩ := Prod.mk.inj h
    exact ⟨ha, rfl⟩
  · rintro ⟨-, h⟩
    rw [← shownAs_dotted ha, ← shownAs_dotted hw, h]

/-- The dashboard shows two workers under one wallet and name if and only if one
of them is a bare wallet and the other bears its name. -/
theorem shown_alike_iff {a b : Str} (hne : a ≠ b) :
    shownAs a = shownAs b ↔ Doubled a b ∨ Doubled b a := by
  obtain ha | ⟨wallet, name, rfl, hw⟩ := plain_or_dotted a <;>
    obtain hb | ⟨wallet', name', rfl, hw'⟩ := plain_or_dotted b
  · rw [shownAs_plain ha, shownAs_plain hb]
    refine iff_of_false (fun h => hne (Prod.mk.inj h).1) ?_
    rintro (⟨-, rfl⟩ | ⟨-, rfl⟩)
    · exact hb (by simp)
    · exact ha (by simp)
  · rw [shown_plain_dotted ha hw', or_iff_left (not_doubled_dotted wallet' name' a)]
  · rw [eq_comm, shown_plain_dotted hb hw, or_iff_right (not_doubled_dotted wallet name b)]
  · rw [shownAs_dotted hw, shownAs_dotted hw']
    refine iff_of_false (fun h => hne ?_) ?_
    · obtain ⟨rfl, rfl⟩ := Prod.mk.inj h
      rfl
    · rintro (h | h)
      · exact not_doubled_dotted wallet name _ h
      · exact not_doubled_dotted wallet' name' _ h

end Identity

section Agreement

/-- The document at `perennia:telemetry` says what the numbers beside it say, and
is the last one that was published. -/
structure Agrees (redis : Redis R) (document : Payload R) : Prop where
  pool : redis.numbers .poolHashrate = some document.totalHashrate
  total : document.totalHashrate = (document.workers.map WorkerRow.trackingRate).sum
  rates : ∀ row ∈ document.workers, rateOf redis row.fullIdentity = some row.trackingRate
  published : redis.published.getLast? = some document

variable [LinearOrder R] (exp : R → R) (now : Nat)

/-- What a row says of its worker. -/
structure RowOf (worker : Str) (state : WorkerState R) (row : WorkerRow R) : Prop where
  identity : row.fullIdentity = worker
  shown : (row.walletAddress, row.name) = shownAs worker
  rate : row.trackingRate = currentHashrate exp now state
  shares : row.sharesContributed = state.sharesContributed
  averages : row.harmonicMesh = projectedEmas exp now state

/-- One row for each worker that is online, and no other rows. -/
structure Describes (engine : Engine R) (document : Payload R) : Prop where
  once : (document.workers.map WorkerRow.fullIdentity).Nodup
  complete : ∀ worker state, engine.workerStates.lookup worker = some state →
    isOnline exp now state = true → ∃ row ∈ document.workers, RowOf exp now worker state row
  genuine : ∀ row ∈ document.workers, ∃ worker state,
    engine.workerStates.lookup worker = some state ∧ isOnline exp now state = true ∧
      RowOf exp now worker state row

/-- The last commands of a pipeline. -/
theorem telemetry_pipeline (redis : Redis R) (entries : Entries R) :
    (redis.execAll (pipeline exp now entries)).telemetry = some (payload exp now entries) ∧
      (redis.execAll (pipeline exp now entries)).published.getLast? =
        some (payload exp now entries) := by
  rw [pipeline, execAll_append]
  simp [Redis.execAll, Redis.exec]

theorem rows_payload (entries : Entries R) :
    ∀ row ∈ (payload exp now entries).workers, ∃ e ∈ entries, isOnline exp now e.2 = true ∧
      row = workerRow exp now e.1 e.2 := by
  intro row hrow
  obtain ⟨e, he, rfl⟩ := List.mem_map.mp hrow
  obtain ⟨hmem, hon⟩ := List.mem_filter.mp he
  exact ⟨e, hmem, hon, rfl⟩

theorem describes_payload (engine : Engine R)
    (order : IterOrder (Sigma fun _ : Str => WorkerState R)) :
    Describes exp now engine (payload exp now (order.apply engine.workerStates.entries)) := by
  have hnd := Table.nodupKeys_order order engine.workerStates
  have hlookup := Table.dlookup_order order engine.workerStates
  constructor
  · simp only [payload, List.map_map]
    exact hnd.sublist List.filter_sublist
  · intro worker state hstate hon
    have hentry : ⟨worker, state⟩ ∈ order.apply engine.workerStates.entries := by
      rw [← hlookup] at hstate
      exact (List.mem_dlookup_iff hnd).mp hstate
    refine ⟨workerRow exp now worker state, ?_, rfl, rfl, rfl, rfl, rfl⟩
    exact List.mem_map_of_mem (List.mem_filter.mpr ⟨hentry, hon⟩)
  · intro row hrow
    obtain ⟨e, he, hon, rfl⟩ := rows_payload exp now _ row hrow
    refine ⟨e.1, e.2, ?_, hon, rfl, rfl, rfl, rfl, rfl⟩
    rw [← hlookup]
    exact (List.mem_dlookup_iff hnd).mpr he

/-- A pipeline that reaches Redis leaves a document that agrees with it. -/
theorem agrees_flush {engine : Engine R} (hne : engine.workerStates.entries ≠ [])
    (order : IterOrder (Sigma fun _ : Str => WorkerState R)) :
    Agrees (flush exp engine now order true).redis
      (payload exp now (order.apply engine.workerStates.entries)) := by
  have hwritten := written_flush exp now hne order
  have htotal : (payload exp now (order.apply engine.workerStates.entries)).totalHashrate =
      onlineRate exp now engine := by
    rw [totalHashrate_payload, Table.sum_order]
    rfl
  constructor
  · rw [hwritten.pool, htotal]
  · simp only [payload, List.map_map]
    rfl
  · intro row hrow
    obtain ⟨worker, state, hstate, hon, hof⟩ := (describes_payload exp now engine order).genuine row hrow
    rw [hof.identity, hwritten.rate, hstate, Status.rateAfter, if_pos hon, hof.rate]
  · rw [redis_flush exp now hne]
    exact (telemetry_pipeline exp now engine.redis _).2

end Agreement

section Runs

variable [LinearOrder R] (exp : R → R) (redis : Redis R)

/-- A step whose pipeline reaches Redis. -/
def Writes (engine : Engine R) : Action R → Prop
  | .share .. => False
  | .flush _ _ ok => ok = true ∧ engine.workerStates.entries ≠ []

def Silent (engine : Engine R) (a : Action R) : Prop := ¬ Writes engine a

theorem redis_silent {engine : Engine R} {a : Action R} (h : Silent engine a) :
    (step exp engine a).redis = engine.redis := by
  cases a with
  | share worker difficulty now => rfl
  | flush now order ok =>
    cases ok with
    | false => exact redis_failed_flush exp engine now order
    | true =>
      have hempty : engine.workerStates.entries = [] := by
        by_contra hne
        exact h ⟨rfl, hne⟩
      rw [step, flush_of_empty exp now hempty]

/-- The run up to its last flush that reached Redis, and that flush's clock. -/
def LastFlush (as pre : List (Action R)) (now : Nat) : Prop :=
  ∃ order rest, as = pre ++ .flush now order true :: rest ∧
    (run (step exp) (boot redis) pre).workerStates.entries ≠ [] ∧
    Guarded (step exp) Silent (run (step exp) (boot redis) (pre ++ [.flush now order true])) rest

/-- The document of the last flush: it tells what that flush found, and agrees
with the numbers that are in Redis. -/
def Documented (as : List (Action R)) : Prop :=
  ∃ pre now document, LastFlush exp redis as pre now ∧
    (run (step exp) (boot redis) as).redis.telemetry = some document ∧
    Describes exp now (run (step exp) (boot redis) pre) document ∧
    Agrees (run (step exp) (boot redis) as).redis document

theorem documented_silent {as : List (Action R)} {a : Action R} (h : Documented exp redis as)
    (ha : Silent (run (step exp) (boot redis) as) a) : Documented exp redis (as ++ [a]) := by
  obtain ⟨pre, now, document, ⟨order, rest, has, hne, hsilent⟩, htext, hdescribes, hagrees⟩ := h
  have hredis := redis_silent exp ha
  refine ⟨pre, now, document, ⟨order, rest ++ [a], by simp [has], hne, ?_⟩, ?_, hdescribes, ?_⟩
  · rw [guarded_append, guarded_cons]
    refine ⟨hsilent, ?_, guarded_nil _ _⟩
    have hrun : run (step exp) (run (step exp) (boot redis) (pre ++ [.flush now order true])) rest =
        run (step exp) (boot redis) as := by
      rw [has, ← run_append, List.append_assoc]
      rfl
    rwa [hrun]
  · rwa [run_concat, hredis]
  · rwa [run_concat, hredis]

/-- At every time of every run, with pipelines that fail or not, the dashboard
reads the document of the last flush that reached Redis. -/
theorem document_agrees (as : List (Action R)) :
    (Guarded (step exp) Silent (boot redis) as ∧
        (run (step exp) (boot redis) as).redis = redis) ∨
      Documented exp redis as := by
  induction as using List.reverseRecOn with
  | nil => exact .inl ⟨guarded_nil _ _, rfl⟩
  | append_singleton pre a ih =>
    by_cases ha : Silent (run (step exp) (boot redis) pre) a
    · refine ih.imp ?_ (fun h => documented_silent exp redis h ha)
      rintro ⟨hsilent, hredis⟩
      rw [guarded_append, guarded_cons, run_concat, redis_silent exp ha]
      exact ⟨⟨hsilent, ha, guarded_nil _ _⟩, hredis⟩
    · right
      cases a with
      | share worker difficulty now => exact absurd id ha
      | flush now order ok =>
        obtain ⟨rfl, hne⟩ := not_not.mp ha
        refine ⟨pre, now, payload exp now _, ⟨order, [], rfl, hne, guarded_nil _ _⟩, ?_,
          describes_payload exp now _ order, ?_⟩
        · rw [run_concat, step, redis_flush exp now hne]
          exact (telemetry_pipeline exp now _ _).1
        · rw [run_concat]
          exact agrees_flush exp now hne order

end Runs

section Examples

theorem doubled_wallet_shown_alike :
    shownAs (lit "kaspa:qz0") = shownAs (lit "kaspa:qz0.kaspa:qz0") ↔
      Doubled (lit "kaspa:qz0") (lit "kaspa:qz0.kaspa:qz0") ∨
        Doubled (lit "kaspa:qz0.kaspa:qz0") (lit "kaspa:qz0") :=
  shown_alike_iff (by decide)

end Examples

end StratumPool.Document
