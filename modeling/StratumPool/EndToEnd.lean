import StratumPool.Views
import StratumPool.Delivery
import StratumPool.Isolation

namespace StratumPool.EndToEnd

open Lib Lib.Runs Lib.HandOff StratumPool.Text StratumPool.Json StratumPool.Telemetry
  StratumPool.Ledger StratumPool.LedgerRuns StratumPool.FailedFlush StratumPool.Views
  StratumPool.Oracle StratumPool.OracleRuns StratumPool.Reflection
open StratumPool.Yield hiding rig
open StratumPool.Isolation (allReached)

/-- The accounting engine and the oracle around one share buffer. The engine's
`shareBuffer` is the log of its pushes, the oracle's `share` the list itself. -/
structure State (R : Type) where
  engine : Engine R
  oracle : Oracle.State R

/-- The steps of both daemons, every call of theirs successful. -/
inductive Action (R : Type) where
  | share (worker : Str) (difficulty : R) (now : Nat)
  | flush (now : Nat) (order : IterOrder (Sigma fun _ : Str => WorkerState R))
  | pushBlock (rawBlock : Str)
  | readShares
  | trimShares
  | applyShares (order : AggregateOrder R) (spot : Option R)
  | readBlocks
  | trimBlocks
  | applyBlocks

def boot {R : Type} (redis : Redis R) (db : Db R) : State R :=
  ⟨Telemetry.boot redis, Oracle.boot db⟩

variable {R : Type} [Field R] [LinearOrder R]

section Steps

variable (exp : R → R) (float : R → Str) (parse : Str → Option (Value R))

/-- What `serde_json` writes for an event. -/
def eventText (event : OracleEvent R) : Str := render float event.toJson

def engineActs : Action R → List (Telemetry.Action R)
  | .share worker difficulty now => [.share worker difficulty now]
  | .flush now order => [.flush now order true]
  | _ => []

/-- The events one flush pushes. -/
def flushed (engine : Engine R) (now : Nat)
    (order : IterOrder (Sigma fun _ : Str => WorkerState R)) : List (OracleEvent R) :=
  (flush exp engine now order true).redis.shareBuffer.drop engine.redis.shareBuffer.length

def oracleActs (state : State R) : Action R → List (Oracle.Action R)
  | .share .. => []
  | .flush now order =>
      (flushed exp state.engine now order).map (fun event => .pushShare (eventText float event))
  | .pushBlock rawBlock => [.pushBlock rawBlock]
  | .readShares => [.readShares true]
  | .trimShares => [.trimShares true]
  | .applyShares order spot => [.applyShares order spot allReached]
  | .readBlocks => [.readBlocks true]
  | .trimBlocks => [.trimBlocks true]
  | .applyBlocks => [.applyBlocks (fun _ => true)]

def step (state : State R) (a : Action R) : State R :=
  { engine := run (Telemetry.step exp) state.engine (engineActs a)
    oracle := run (Oracle.step .cut parse) state.oracle (oracleActs exp float state a) }

/-- Postgres has room for the wallets of the batch. -/
def TakesBatch (state : State R) : Action R → Prop
  | .applyShares .. => state.oracle.share.stage = .trimmed →
      Fits parse .cut (state.oracle.share.hand.map Prod.snd)
  | _ => True

/-- The list is empty and the oracle has no batch in hand. -/
def Settled (state : State R) : Prop :=
  state.oracle.share.buffer = [] ∧ state.oracle.share.stage = .idle

end Steps

section Logs

variable (exp : R → R) (float : R → Str) (parse : Str → Option (Value R))

def pushesOf : Oracle.Action R → List Str
  | .pushShare rawEvt => [rawEvt]
  | _ => []

omit [LinearOrder R] in
/-- Only a push adds to what was ever pushed. -/
theorem pushed_oracle (oracle : Oracle.State R) (a : Oracle.Action R) :
    (Oracle.step .cut parse oracle a).share.pushed.map Prod.snd =
      oracle.share.pushed.map Prod.snd ++ pushesOf a := by
  rw [share_refines .cut parse oracle a]
  cases a with
  | pushShare rawEvt => exact pushed_step oracle.share (.push rawEvt)
  | trimShares ok => exact pushed_step oracle.share (.trim ok)
  | applyShares order spot tx =>
    exact pushed_step oracle.share (.settle (shareTook .cut parse oracle order spot tx))
  | readShares ok =>
    rw [shareAct]
    split
    · exact pushed_step oracle.share (.read 501 ok)
    · exact (List.append_nil _).symm
  | pushBlock rawBlock => exact (List.append_nil _).symm
  | readBlocks ok => exact (List.append_nil _).symm
  | trimBlocks ok => exact (List.append_nil _).symm
  | applyBlocks ok => exact (List.append_nil _).symm

omit [LinearOrder R] in
theorem pushed_texts (oracle : Oracle.State R) (texts : List Str) :
    (run (Oracle.step .cut parse) oracle (texts.map .pushShare)).share.pushed.map Prod.snd =
      oracle.share.pushed.map Prod.snd ++ texts := by
  induction texts generalizing oracle with
  | nil => simp
  | cons text texts ih => rw [List.map_cons, run_cons, ih, pushed_oracle, List.append_assoc]; rfl

/-- The two sides agree on the events that were ever pushed. -/
structure Logged (redis : Redis R) (state : State R) (events : List (OracleEvent R)) : Prop where
  summed : AllSummed state.engine
  engine : InStep redis state.engine events
  oracle : state.oracle.share.pushed.map Prod.snd = events.map (eventText float)

theorem logged_step {redis : Redis R} {state : State R} {events : List (OracleEvent R)}
    (h : Logged float redis state events) (a : Action R) :
    ∃ more, Logged float redis (step exp float parse state a) (events ++ more) := by
  have hother : ∀ b, pushesOf b = [] →
      Logged float redis ⟨state.engine, Oracle.step .cut parse state.oracle b⟩ (events ++ []) := by
    intro b hb
    rw [List.append_nil]
    refine ⟨h.summed, h.engine, ?_⟩
    rw [pushed_oracle, hb, List.append_nil]
    exact h.oracle
  cases a with
  | share worker difficulty now =>
    refine ⟨[], allSummed_step exp h.summed (.share worker difficulty now), ?_, ?_⟩
    · rw [List.append_nil]
      exact ⟨h.engine.buffer, h.engine.wallets, h.engine.workers⟩
    · rw [List.append_nil]
      exact h.oracle
  | flush now order =>
    obtain ⟨more, hm⟩ := inStep_step exp h.summed h.engine (.flush now order true)
    refine ⟨more, allSummed_step exp h.summed (.flush now order true), hm, ?_⟩
    have hflushed : flushed exp state.engine now order = more := by
      have hb := hm.buffer
      rw [← List.append_assoc, ← h.engine.buffer] at hb
      rw [flushed, ← Telemetry.step, hb, List.drop_left]
    rw [step, oracleActs, hflushed, List.map_append, ← h.oracle, ← pushed_texts, List.map_map]
    rfl
  | pushBlock rawBlock => exact ⟨[], hother (.pushBlock rawBlock) rfl⟩
  | readShares => exact ⟨[], hother (.readShares true) rfl⟩
  | trimShares => exact ⟨[], hother (.trimShares true) rfl⟩
  | applyShares order spot => exact ⟨[], hother (.applyShares order spot allReached) rfl⟩
  | readBlocks => exact ⟨[], hother (.readBlocks true) rfl⟩
  | trimBlocks => exact ⟨[], hother (.trimBlocks true) rfl⟩
  | applyBlocks => exact ⟨[], hother (.applyBlocks (fun _ => true)) rfl⟩

theorem logged_run (redis : Redis R) (db : Db R) (as : List (Action R)) :
    ∃ events, Logged float redis (run (step exp float parse) (boot redis db) as) events := by
  refine (always_of_invariant (I := fun state => ∃ events, Logged float redis state events)
    ?_ ?_ as).last
  · exact ⟨[], allSummed_boot redis, inStep_boot redis, rfl⟩
  · rintro state a ⟨events, h⟩
    obtain ⟨more, hm⟩ := logged_step exp float parse h a
    exact ⟨events ++ more, hm⟩

end Logs

section Matching

/-- The part of a ledger that stems from shares without a worker name. -/
def nameless (redis : Redis R) (w : Str) : R := if w = [] then workerShares redis [] else 0

def Agrees (state : State R) (w : Str) : Prop :=
  column YieldReservoir.totalYieldKas state.oracle.db w = 0.000005 * ledger state.engine.redis w

/-- The yield of Postgres is the ledger of Redis at the fixed rate, shares
without a worker name apart. -/
def Matches (redis : Redis R) (db : Db R) (w : Str) : Prop :=
  column YieldReservoir.totalYieldKas db w = 0.000005 * (ledger redis w - nameless redis w)

/-- Of these events Postgres stores just the wallet's own under its name. -/
def Unmixed (events : Multiset (OracleEvent R)) (w : Str) : Prop :=
  ∀ e ∈ events, storedVarchar 255 (walletOf e.worker) = w ↔ walletOf e.worker = w

omit [Field R] [LinearOrder R] in
/-- Only a wallet of more than 255 characters is stored under another name. -/
theorem unmixed_of_short {events : Multiset (OracleEvent R)}
    (h : ∀ e ∈ events, (walletOf e.worker).length ≤ 255) (w : Str) : Unmixed events w := by
  intro e he
  rw [storedVarchar_of_short (h e he)]

omit [LinearOrder R] in
/-- What an event brings a wallet in Postgres is what it brings it in Redis,
unless the event names no worker or another wallet is stored under the name. -/
theorem deltaTo_event {float : R → Str} {parse : Str → Option (Value R)} {e : OracleEvent R}
    (hread : parse (eventText float e) = some e.toJson) {w : Str}
    (hown : storedVarchar 255 (walletOf e.worker) = w ↔ walletOf e.worker = w) :
    deltaTo parse w (eventText float e) =
      0.000005 * (owed w e.worker e.difficulty -
        if w = [] then (if e.worker = [] then e.difficulty else 0) else 0) := by
  have hworker : (e.toJson.field (lit "worker")).asStr = some e.worker := rfl
  have hdiff : (e.toJson.field (lit "difficulty")).asF64 = some e.difficulty := rfl
  by_cases hn : e.worker = []
  · have hwallet : walletOf ([] : Str) = [] := rfl
    rw [deltaTo, yieldOf, hread]
    by_cases hw : w = []
    · simp [hworker, hn, owed, hwallet, hw]
    · simp [hworker, hn, owed, hwallet, hw, Ne.symm hw]
  · obtain ⟨wallet, rest, hsplit⟩ := List.exists_cons_of_ne_nil (List.splitOn_ne_nil '.' e.worker)
    have hwallet : walletOf e.worker = wallet := by simp [walletOf, splitDots, hsplit]
    rw [hwallet] at hown
    rw [deltaTo, yieldOf, hread]
    simp only [hworker, hdiff, Option.getD_some, List.isEmpty_iff, hn, if_false, splitDots, hsplit,
      List.head?_cons, Option.elim_some, storedFor, rowFor, hown, owed, hwallet, ite_self, sub_zero]
    by_cases hw : wallet = w
    · simp [hw, mul_comm]
    · simp [hw]

omit [LinearOrder R] in
theorem sum_deltas {float : R → Str} {parse : Str → Option (Value R)}
    {events : List (OracleEvent R)}
    (hread : ∀ e ∈ events, parse (eventText float e) = some e.toJson) {w : Str}
    (hown : Unmixed (events : Multiset (OracleEvent R)) w) :
    ((events.map (eventText float)).map (deltaTo parse w)).sum =
      0.000005 * (walletCredit w events - if w = [] then workerCredit [] events else 0) := by
  induction events with
  | nil => simp [walletCredit, workerCredit]
  | cons e events ih =>
    have hrest := ih (fun f hf => hread f (List.mem_cons_of_mem e hf))
      (fun f hf => hown f (List.mem_cons_of_mem e hf))
    rw [List.map_cons, List.map_cons, List.sum_cons, hrest,
      deltaTo_event (hread e List.mem_cons_self) (hown e List.mem_cons_self)]
    by_cases hw : w = []
    · simp only [hw, if_true, walletCredit, workerCredit, List.map_cons, List.sum_cons]
      ring
    · simp only [hw, if_false, walletCredit, List.map_cons, List.sum_cons]
      ring

end Matching

section Runs

variable (exp : R → R) (float : R → Str) (parse : Str → Option (Value R))

def engineOver (as : List (Action R)) : List (Telemetry.Action R) := as.flatMap engineActs

def oracleOver (redis : Redis R) (db : Db R) (as : List (Action R)) : List (Oracle.Action R) :=
  expand (step exp float parse) (oracleActs exp float) (boot redis db) as

/-- The reader gives back what the engine wrote for the shares of the run, and
Postgres has room for every batch. -/
structure Served (redis : Redis R) (db : Db R) (as : List (Action R)) : Prop where
  reads : ∀ e ∈ arrivedOver (engineOver as), parse (eventText float e) = some e.toJson
  takes : Guarded (step exp float parse) (TakesBatch parse) (boot redis db) as

theorem engine_expands : Expands (step exp float parse) (Telemetry.step exp) State.engine
    (fun _ a => engineActs a) := fun _ _ => rfl

theorem oracle_expands : Expands (step exp float parse) (Oracle.step .cut parse) State.oracle
    (oracleActs exp float) := fun _ _ => rfl

theorem engine_run (redis : Redis R) (db : Db R) (as : List (Action R)) :
    (run (step exp float parse) (boot redis db) as).engine =
      run (Telemetry.step exp) (Telemetry.boot redis) (engineOver as) := by
  rw [(engine_expands exp float parse).run_eq, expand_flatMap]
  rfl

theorem oracle_run (redis : Redis R) (db : Db R) (as : List (Action R)) :
    (run (step exp float parse) (boot redis db) as).oracle =
      run (Oracle.step .cut parse) (Oracle.boot db) (oracleOver exp float parse redis db as) :=
  (oracle_expands exp float parse).run_eq (boot redis db) as

omit [LinearOrder R] in
theorem covered_unless_applied (oracle : Oracle.State R) (a : Oracle.Action R)
    (ha : ∀ order spot tx, a ≠ .applyShares order spot tx) :
    ∀ b, shareAct .cut parse oracle a = some b → Covered (shareWork parse) oracle.share b := by
  intro b hb
  cases a with
  | applyShares order spot tx => exact absurd rfl (ha order spot tx)
  | readShares ok =>
    rw [shareAct] at hb
    split at hb
    · cases hb
      trivial
    · cases hb
  | pushShare rawEvt =>
    cases hb
    trivial
  | trimShares ok =>
    cases hb
    trivial
  | pushBlock rawBlock => cases hb
  | readBlocks ok => cases hb
  | trimBlocks ok => cases hb
  | applyBlocks ok => cases hb

/-- With room for every wallet no batch is refused. -/
theorem covered_run {redis : Redis R} {db : Db R} {as : List (Action R)}
    (hfit : Guarded (step exp float parse) (TakesBatch parse) (boot redis db) as) :
    Guarded (Oracle.step .cut parse)
      (fun t a => ∀ b, shareAct .cut parse t a = some b → Covered (shareWork parse) t.share b)
      (Oracle.boot db) (oracleOver exp float parse redis db as) := by
  refine (oracle_expands exp float parse).guarded (s := boot redis db) ?_
  intro pre a hp
  have hf := hfit pre a hp
  cases a with
  | applyShares order spot =>
    simp only [oracleActs, guarded_cons, guarded_nil, and_true]
    intro b hb
    cases hb
    intro hs e he hw
    have htook := shareTook_iff .cut parse (run (step exp float parse) (boot redis db) pre).oracle
      order spot allReached he hw
    exact .inl (htook.mpr ⟨⟨rfl, rfl, rfl, rfl⟩, hf hs⟩)
  | _ =>
    apply guarded_of_forall
    intro t b hb
    apply covered_unless_applied
    rintro order spot tx rfl
    simp [oracleActs] at hb

theorem trimmed_run (redis : Redis R) (db : Db R) (as : List (Action R)) :
    Guarded (Oracle.step .cut parse) (TrimSucceeds parse) (Oracle.boot db)
      (oracleOver exp float parse redis db as) := by
  refine (oracle_expands exp float parse).guarded (s := boot redis db) ?_
  intro pre a _
  apply guarded_of_forall
  intro t b hb
  cases b with
  | trimShares ok =>
    intro _
    cases a <;> simp [oracleActs] at hb
    exact .inl hb
  | _ => trivial

/-- In every settled state of a run the yield of Postgres and the ledger of
Redis match, whatever the worker names are, up to the shares of a worker
without any name and wallets that are mixed up where spaces are cut off. -/
theorem yields_match_ledgers {redis : Redis R} {db : Db R} {w : Str} (h0 : Matches redis db w)
    {as : List (Action R)} (hserved : Served exp float parse redis db as)
    (hown : Unmixed (arrivedOver (engineOver as)) w)
    (hset : Settled (run (step exp float parse) (boot redis db) as)) :
    Matches (run (step exp float parse) (boot redis db) as).engine.redis
      (run (step exp float parse) (boot redis db) as).oracle.db w := by
  obtain ⟨events, hlog⟩ := logged_run exp float parse redis db as
  have harrived : ∀ e ∈ events, e ∈ arrivedOver (engineOver as) := by
    have hin := hlog.engine
    rw [engine_run] at hin
    exact fun e he => Multiset.mem_of_le (pushed_arrived exp hin) he
  have hreads : ∀ e ∈ events, parse (eventText float e) = some e.toJson := fun e he =>
    hserved.reads e (harrived e he)
  have howns : Unmixed events w := fun e he => hown e (harrived e he)
  have hshare := share_refines .cut parse
  have hinv := (always_inv hshare (s := Oracle.boot db) rfl
    (oracleOver exp float parse redis db as)).last
  have hloss := ((lossless_iff hshare (shareWork parse) (s := Oracle.boot db) rfl _).mpr
    (covered_run exp float parse hserved.takes)).last
  have honce := (applied_once_of_trimmed .cut parse db (trimmed_run exp float parse redis db as)).last
  have hreflect := (tables_reflect_applied .cut parse db (oracleOver exp float parse redis db as)).last
  simp only [← oracle_run] at hinv hloss honce hreflect
  have hall := hloss hset.2
  simp only [hset.1, List.not_mem_nil, false_or] at hall
  have hsum := sum_applied hinv honce hall (deltaTo parse w) (by
    intro rawEvt hw
    have hnone : yieldOf parse rawEvt = none := by simpa [shareWork] using hw
    simp [deltaTo, hnone])
  have hpushed : ∀ l : List (Nat × Str),
      (l.map (fun e => deltaTo parse w e.2)).sum = ((l.map Prod.snd).map (deltaTo parse w)).sum := by
    intro l
    rw [List.map_map]
    rfl
  rw [Matches] at h0 ⊢
  rw [hreflect.yields _ totalYield_accrues w, hsum, hpushed, hlog.oracle, sum_deltas hreads howns,
    h0, hlog.engine.wallets w]
  by_cases hw : w = []
  · simp only [nameless, hw, if_true, hlog.engine.workers []]
    ring
  · simp only [nameless, hw, if_false]
    ring

end Runs

section Examples

def flushedRun (worker : Str) : List (Action ℝ) := [.share worker 1 0, .flush 1000 (.asStored _)]

/-- One share of difficulty one, and a tick of the oracle a second later up to
the removal of its batch. -/
def trimmedRun (worker : Str) : List (Action ℝ) := flushedRun worker ++ [.readShares, .trimShares]

def creditedRun (worker : Str) : List (Action ℝ) :=
  trimmedRun worker ++ [.applyShares (.asStored _) none]

def printOne : ℝ → Str := fun _ => lit "1.0"

def oneShare (worker : Str) : OracleEvent ℝ := ⟨worker, 1, 0⟩

/-- A reader that knows the one event of these runs. -/
noncomputable def readOne (worker : Str) (text : Str) : Option (Value ℝ) :=
  if text = eventText printOne (oneShare worker) then some (oneShare worker).toJson else none

def noRows : Db ℝ := ⟨∅, [], ∅⟩

noncomputable def serve (worker : Str) (as : List (Action ℝ)) : State ℝ :=
  run (step Real.exp printOne (readOne worker)) (boot emptyRedis noRows) as

noncomputable def firstState : WorkerState ℝ := bookShare Real.exp 1 0 (freshState 0)

theorem firstState_online : isOnline Real.exp 1000 firstState = true :=
  first_share_online

theorem firstState_unflushed : firstState.unflushedDifficulty = 1 := by
  simp [firstState, bookShare, freshState]

noncomputable def firstEngine (worker : Str) : Engine ℝ :=
  Telemetry.step Real.exp (Telemetry.boot emptyRedis) (.share worker 1 0)

theorem flushed_first (worker : Str) :
    flushed Real.exp (firstEngine worker) 1000 (.asStored _) = [oneShare worker] := by
  have hentries : (firstEngine worker).workerStates.entries = [⟨worker, firstState⟩] := rfl
  have hevents : creditedEvents Real.exp 1000 worker firstState = [oneShare worker] := by
    rw [creditedEvents, if_pos ⟨firstState_online, by rw [firstState_unflushed]; exact one_pos⟩]
    rfl
  simp only [flushed, flush, IterOrder.asStored, id, hentries, List.isEmpty_cons,
    Bool.false_eq_true, if_false, if_true, shareBuffer_execAll, pushed_pipeline, List.flatMap_cons,
    List.flatMap_nil, hevents, List.append_nil]
  exact List.drop_left

theorem ledger_first (worker : Str) :
    ledger (flush Real.exp (firstEngine worker) 1000 (.asStored _) true).redis (walletOf worker) = 1 := by
  have hstates : (firstEngine worker).workerStates = AList.insert worker firstState ∅ := rfl
  have hzero : ledger (firstEngine worker).redis (walletOf worker) = 0 := rfl
  rw [ledger_flush, hzero, hstates, Table.total_insert_empty, Ledger.credited,
    if_pos ⟨firstState_online, by rw [firstState_unflushed]; exact one_pos⟩, firstState_unflushed]
  simp [owed]

theorem serve_trimmed (worker : Str) :
    serve worker (trimmedRun worker) =
      ⟨flush Real.exp (firstEngine worker) 1000 (.asStored _) true,
        ⟨⟨[(0, eventText printOne (oneShare worker))], [],
          [(0, eventText printOne (oneShare worker))], .trimmed, []⟩, .empty Str, .shares, noRows⟩⟩ := by
  have hflush : serve worker (flushedRun worker) =
      ⟨flush Real.exp (firstEngine worker) 1000 (.asStored _) true,
        run (Oracle.step .cut (readOne worker)) (Oracle.boot noRows)
          ((flushed Real.exp (firstEngine worker) 1000 (.asStored _)).map
            (fun event => .pushShare (eventText printOne event)))⟩ := rfl
  rw [serve, trimmedRun, run_append, ← serve, hflush, flushed_first]
  simp [step, engineActs, oracleActs, Oracle.step, Oracle.boot, HandOff.empty, HandOff.push,
    readShares, HandOff.read, HandOff.trim]

theorem ledger_trimmed (worker : Str) :
    ledger (serve worker (trimmedRun worker)).engine.redis (walletOf worker) = 1 := by
  rw [serve_trimmed]
  exact ledger_first worker

theorem serve_credited (worker : Str) :
    serve worker (creditedRun worker) =
      step Real.exp printOne (readOne worker) (serve worker (trimmedRun worker))
        (.applyShares (.asStored _) none) := by
  rw [serve, creditedRun, run_concat, ← serve]

theorem credited_settled (worker : Str) : Settled (serve worker (creditedRun worker)) := by
  rw [serve_credited, serve_trimmed]
  simp [Settled, step, oracleActs, Oracle.step, applyShares, HandOff.settle]

theorem readOne_arrived (worker : Str) (as : List (Action ℝ)) (hacts : engineOver as =
      [.share worker 1 0, .flush 1000 (.asStored _) true]) :
    ∀ e ∈ arrivedOver (engineOver as), readOne worker (eventText printOne e) = some e.toJson := by
  intro e he
  simp only [hacts, arrivedOver, arrived, List.map_cons, List.map_nil, List.sum_cons, List.sum_nil,
    add_zero, Multiset.mem_singleton] at he
  rw [he]
  exact if_pos rfl

theorem trimmed_takes (worker : Str) :
    Guarded (step Real.exp printOne (readOne worker)) (TakesBatch (readOne worker))
      (boot emptyRedis noRows) (trimmedRun worker) := by
  simp [trimmedRun, flushedRun, TakesBatch]

theorem credited_takes (worker : Str)
    (hfit : ∀ row, yieldOf (readOne worker) (eventText printOne (oneShare worker)) = some row →
      fitsVarchar .cut 255 row.1 = true) :
    Guarded (step Real.exp printOne (readOne worker)) (TakesBatch (readOne worker))
      (boot emptyRedis noRows) (creditedRun worker) := by
  rw [creditedRun, guarded_append]
  refine ⟨trimmed_takes worker, ?_⟩
  rw [← serve, serve_trimmed]
  simp only [guarded_cons, guarded_nil, and_true, TakesBatch]
  rw [List.map_cons, List.map_nil]
  refine fun _ => ⟨?_, ?_⟩
  · intro rawEvt hm row hy
    rw [List.mem_singleton.mp hm] at hy
    exact hfit row hy
  · intro rawEvt hm rawEvt' hm' row row' hy hy' _
    rw [List.mem_singleton.mp hm] at hy
    rw [List.mem_singleton.mp hm', hy] at hy'
    rw [Option.some.inj hy']

theorem yieldOf_nameless : yieldOf (readOne []) (eventText printOne (oneShare [])) = none := by
  have hread : readOne [] (eventText printOne (oneShare [])) = some (oneShare []).toJson := if_pos rfl
  have hworker : ((oneShare []).toJson.field (lit "worker")).asStr = some [] := rfl
  simp [yieldOf, hread, hworker]

/-- The share of a nameless worker is in the ledger and never in the yields. -/
theorem nameless_unpaid : (serve [] (creditedRun [])).oracle.db = noRows ∧
    ledger (serve [] (creditedRun [])).engine.redis [] = 1 := by
  have hledger : ledger (serve [] (trimmedRun [])).engine.redis [] = 1 := ledger_trimmed []
  refine ⟨?_, ?_⟩
  · have hnone : creditShares .cut (readOne []) noRows (.asStored _)
        [eventText printOne (oneShare [])] none allReached = none := by
      rw [← Option.not_isSome_iff_eq_none, creditShares_isSome]
      rintro ⟨_, _, rawEvt, hm, hsome⟩
      rw [List.mem_singleton.mp hm, yieldOf_nameless] at hsome
      cases hsome
    rw [serve_credited, serve_trimmed]
    simp [step, oracleActs, Oracle.step, applyShares, hnone]
  · rw [serve_credited]
    exact hledger

/-- A wallet of 256 characters, the last of which is a space. -/
def padded : Str := List.replicate 255 'a' ++ lit " .rig"

/-- A share under a name that is cut is in the ledger, and in no yield under
that name. -/
theorem long_unpaid {worker : Str} (h : 255 < (walletOf worker).length) :
    column YieldReservoir.totalYieldKas (serve worker (creditedRun worker)).oracle.db
        (walletOf worker) = 0 ∧
      ledger (serve worker (creditedRun worker)).engine.redis (walletOf worker) = 1 := by
  have hgain := creditShares_gain .cut (readOne worker) (column_credited totalYield_accrues) noRows
    (.asStored _) [eventText printOne (oneShare worker)] none allReached (walletOf worker)
  have hnone : column YieldReservoir.totalYieldKas noRows (walletOf worker) = 0 := rfl
  have hdb : (serve worker (creditedRun worker)).oracle.db =
      (creditShares .cut (readOne worker) noRows (.asStored _)
        [eventText printOne (oneShare worker)] none allReached).getD noRows := by
    rw [serve_credited, serve_trimmed]
    simp [step, oracleActs, Oracle.step, applyShares]
  refine ⟨?_, ?_⟩
  · rw [hdb, hgain, hnone]
    simp [deltaTo_of_long _ h]
  · rw [serve_credited]
    exact ledger_trimmed worker

theorem idle_first (worker : Str) :
    Idle (flush Real.exp (firstEngine worker) 1000 (.asStored _) true) := by
  apply idle_flush
  have hpos : ∀ a ∈ [Telemetry.Action.share worker (1 : ℝ) 0], Positive a := by simp [Positive]
  exact (booked_run Real.exp emptyRedis hpos).last

theorem served_trimmed (worker : Str) :
    Served Real.exp printOne (readOne worker) emptyRedis noRows (trimmedRun worker) :=
  ⟨readOne_arrived worker _ rfl, trimmed_takes worker⟩

theorem yieldOf_named {worker : Str} (hne : worker ≠ []) :
    yieldOf (readOne worker) (eventText printOne (oneShare worker)) =
      some ((splitDots worker).head?.getD worker, 1 * 0.000005) := by
  have hread : readOne worker (eventText printOne (oneShare worker)) = some (oneShare worker).toJson :=
    if_pos rfl
  have hworker : ((oneShare worker).toJson.field (lit "worker")).asStr = some worker := rfl
  have hdiff : ((oneShare worker).toJson.field (lit "difficulty")).asF64 = some 1 := rfl
  simp only [yieldOf, hread, hworker, hdiff, Option.getD_some, List.isEmpty_iff, hne, if_false]

theorem served_named {worker : Str} (hne : worker ≠ [])
    (hfit : fitsVarchar .cut 255 ((splitDots worker).head?.getD worker) = true) :
    Served Real.exp printOne (readOne worker) emptyRedis noRows (creditedRun worker) := by
  refine ⟨readOne_arrived worker _ rfl, credited_takes worker (fun row hy => ?_)⟩
  rw [yieldOf_named hne] at hy
  rw [← Option.some.inj hy]
  exact hfit

/-- The yields miss the shares of a nameless worker and of a wallet whose last
spaces are cut off, and they miss a batch that is removed from the list and not
yet in the tables. -/
theorem yields_miss_ledgers :
    (¬ ∀ float parse as, Served Real.exp float parse emptyRedis noRows as →
      Idle (run (step Real.exp float parse) (boot emptyRedis noRows) as).engine →
      Settled (run (step Real.exp float parse) (boot emptyRedis noRows) as) →
      ∀ w, Agrees (run (step Real.exp float parse) (boot emptyRedis noRows) as) w) ∧
    (¬ ∀ float parse as, Served Real.exp float parse emptyRedis noRows as →
      Idle (run (step Real.exp float parse) (boot emptyRedis noRows) as).engine →
      Settled (run (step Real.exp float parse) (boot emptyRedis noRows) as) →
      ∀ w, w ≠ [] → Agrees (run (step Real.exp float parse) (boot emptyRedis noRows) as) w) ∧
    ¬ ∀ float parse as, Served Real.exp float parse emptyRedis noRows as →
      Idle (run (step Real.exp float parse) (boot emptyRedis noRows) as).engine →
      (run (step Real.exp float parse) (boot emptyRedis noRows) as).oracle.share.buffer = [] →
      ∀ w, w ≠ [] → Agrees (run (step Real.exp float parse) (boot emptyRedis noRows) as) w := by
  have hrate : (0 : ℝ) ≠ 0.000005 * 1 := by norm_num
  have hidle : ∀ worker, Idle (serve worker (creditedRun worker)).engine := by
    intro worker
    rw [serve_credited, serve_trimmed]
    exact idle_first worker
  refine ⟨?_, ?_, ?_⟩
  · intro h
    have hserved : Served Real.exp printOne (readOne []) emptyRedis noRows (creditedRun []) :=
      ⟨readOne_arrived [] _ rfl, credited_takes [] (by simp [yieldOf_nameless])⟩
    have hnone := h printOne (readOne []) (creditedRun []) hserved (hidle []) (credited_settled []) []
    rw [← serve, Agrees, nameless_unpaid.1, nameless_unpaid.2] at hnone
    exact hrate hnone
  · intro h
    have hlong : 255 < (walletOf padded).length := by decide +kernel
    have hcut := h printOne (readOne padded) (creditedRun padded)
      (served_named (by decide +kernel) (by decide +kernel)) (hidle padded) (credited_settled padded)
      (walletOf padded) (List.ne_nil_of_length_pos (by omega))
    rw [← serve, Agrees, (long_unpaid hlong).1, (long_unpaid hlong).2] at hcut
    exact hrate hcut
  · intro h
    have htrimmed : Idle (serve rig (trimmedRun rig)).engine := by
      rw [serve_trimmed]
      exact idle_first rig
    have hbuffer : (serve rig (trimmedRun rig)).oracle.share.buffer = [] := by rw [serve_trimmed]
    have hdb : (serve rig (trimmedRun rig)).oracle.db = noRows := by rw [serve_trimmed]
    have hlate := h printOne (readOne rig) (trimmedRun rig) (served_trimmed rig) htrimmed hbuffer
      (walletOf rig) (by decide)
    rw [← serve, Agrees, ledger_trimmed, hdb] at hlate
    exact hrate hlate

theorem matches_empty (w : Str) : Matches emptyRedis noRows w := by
  have hcolumn : column YieldReservoir.totalYieldKas noRows w = 0 := rfl
  have hledger : ledger emptyRedis w = 0 := rfl
  have hshares : workerShares emptyRedis [] = 0 := rfl
  rw [Matches, hcolumn, hledger, nameless]
  split <;> simp [hshares]

/-- A share of a named worker, once credited, is in both. -/
theorem credited_matches :
    let state := run (step Real.exp printOne (readOne rig)) (boot emptyRedis noRows) (creditedRun rig)
    Matches state.engine.redis state.oracle.db (walletOf rig) := by
  have hserved : Served Real.exp printOne (readOne rig) emptyRedis noRows (creditedRun rig) :=
    served_named (by decide) (by decide)
  refine yields_match_ledgers Real.exp printOne (readOne rig) (matches_empty _) hserved
    (unmixed_of_short ?_ _) (credited_settled rig)
  have hacts : engineOver (creditedRun rig) = [.share rig 1 0, .flush 1000 (.asStored _) true] := rfl
  intro e he
  simp only [hacts, arrivedOver, arrived, List.map_cons, List.map_nil, List.sum_cons, List.sum_nil,
    add_zero, Multiset.mem_singleton] at he
  rw [he]
  decide

end Examples

end StratumPool.EndToEnd
