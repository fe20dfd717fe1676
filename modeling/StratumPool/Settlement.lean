import StratumPool.Accounting
import StratumPool.EndToEnd
import StratumPool.Reader
import StratumPool.Lib.HandOffBooks

namespace StratumPool.Settlement

open Lib Lib.Runs StratumPool.Text StratumPool.Json StratumPool.Kaspa StratumPool.Ledger
  StratumPool.LedgerRuns StratumPool.Reflection
open Lib.HandOff (weigh spilledOver recurringOver balanced_run)
open StratumPool.Telemetry (OracleEvent Redis)
open StratumPool.Oracle (Db YieldReservoir)
open StratumPool.OracleRuns (shareAct share_refines)
open StratumPool.FailedFlush (arrived arrivedOver)
open StratumPool.Views (AllSummed InStep walletCredit allSummed_boot allSummed_step inStep_boot
  inStep_step pushed_arrived)
open StratumPool.EndToEnd (Unmixed eventText pushed_oracle pushed_texts pushesOf sum_deltas
  unmixed_of_short)
open StratumPool.Accounting (GivesDifficulty GivesOnly nextShare worth mem_queue_step
  accepted_difficulty connections_step)

/-- The server, the engine and the oracle with the Redis lists and the tables
between them. -/
structure State (Body R : Type) where
  pool : Accounting.State Body R
  oracle : Oracle.State R

/-- The steps of the pool and those of the oracle, each call with its outcome. -/
inductive Action (Body R : Type) where
  | pool (action : Accounting.Action Body R)
  | oracle (action : Oracle.Action R)

def boot {R : Type} (Body : Type) (redis : Redis R) (db : Db R) : State Body R :=
  ⟨Accounting.boot Body redis, Oracle.boot db⟩

variable {Body R : Type} [Field R] [LinearOrder R]

section Steps

variable (exp : R → R) (value : Float → R) (crates : Crates) (float : Float → Str)
  (text : R → Str) (scan : Str → Option R)

def poolActs : Action Body R → List (Accounting.Action Body R)
  | .pool action => [action]
  | .oracle _ => []

/-- The share events that reach Redis in a step of the pool. -/
def pushedBy (pool : Accounting.State Body R) (action : Accounting.Action Body R) :
    List (OracleEvent R) :=
  (Accounting.step exp value crates float pool action).engine.redis.shareBuffer.drop
    pool.engine.redis.shareBuffer.length

/-- Only the engine pushes shares. -/
def oracleActs (state : State Body R) : Action Body R → List (Oracle.Action R)
  | .pool action =>
      (pushedBy exp value crates float state.pool action).map
        (fun event => .pushShare (eventText text event))
  | .oracle (.pushShare _) => []
  | .oracle action => [action]

def step (state : State Body R) (a : Action Body R) : State Body R :=
  { pool := run (Accounting.step exp value crates float) state.pool (poolActs a)
    oracle := run (Oracle.step .cut (readText scan)) state.oracle
      (oracleActs exp value crates float text state a) }

def poolOver (as : List (Action Body R)) : List (Accounting.Action Body R) := as.flatMap poolActs

def oracleOver (redis : Redis R) (db : Db R) (as : List (Action Body R)) :
    List (Oracle.Action R) :=
  expand (step exp value crates float text scan) (oracleActs exp value crates float text)
    (boot Body redis db) as

theorem pool_run (redis : Redis R) (db : Db R) (as : List (Action Body R)) :
    (run (step exp value crates float text scan) (boot Body redis db) as).pool =
      run (Accounting.step exp value crates float) (Accounting.boot Body redis) (poolOver as) := by
  have hexpands : Expands (step exp value crates float text scan)
      (Accounting.step exp value crates float) (@State.pool Body R) (fun _ a => poolActs a) :=
    fun _ _ => rfl
  rw [hexpands.run_eq, expand_flatMap]
  rfl

theorem oracle_run (redis : Redis R) (db : Db R) (as : List (Action Body R)) :
    (run (step exp value crates float text scan) (boot Body redis db) as).oracle =
      run (Oracle.step .cut (readText scan)) (Oracle.boot db)
        (oracleOver exp value crates float text scan redis db as) := by
  have hexpands : Expands (step exp value crates float text scan) (Oracle.step .cut (readText scan))
      (@State.oracle Body R) (oracleActs exp value crates float text) := fun _ _ => rfl
  exact hexpands.run_eq (boot Body redis db) as

end Steps

section Logs

variable (exp : R → R) (value : Float → R) (crates : Crates) (float : Float → Str)
  (text : R → Str) (scan : Str → Option R)

/-- The engine and the oracle agree on the events that were ever pushed. -/
structure Logged (redis : Redis R) (state : State Body R) (events : List (OracleEvent R)) :
    Prop where
  summed : AllSummed state.pool.engine
  engine : InStep redis state.pool.engine events
  oracle : state.oracle.share.pushed.map Prod.snd = events.map (eventText text)

/-- A run of the engine only adds to the events. -/
theorem inStep_acts {redis : Redis R} {engine : Telemetry.Engine R} {events : List (OracleEvent R)}
    (hs : AllSummed engine) (h : InStep redis engine events) (acts : List (Telemetry.Action R)) :
    AllSummed (run (Telemetry.step exp) engine acts) ∧
      ∃ more, InStep redis (run (Telemetry.step exp) engine acts) (events ++ more) := by
  induction acts generalizing engine events with
  | nil => exact ⟨hs, [], by simpa using h⟩
  | cons a acts ih =>
    obtain ⟨first, hfirst⟩ := inStep_step exp hs h a
    obtain ⟨hsummed, rest, hrest⟩ := ih (allSummed_step exp hs a) hfirst
    exact ⟨hsummed, first ++ rest, by rwa [← List.append_assoc]⟩

theorem logged_step {redis : Redis R} {state : State Body R} {events : List (OracleEvent R)}
    (h : Logged text redis state events) (a : Action Body R) :
    ∃ more, Logged text redis (step exp value crates float text scan state a) (events ++ more) := by
  cases a with
  | pool action =>
    have hengine := Accounting.engine_step exp value crates float state.pool action
    obtain ⟨hsummed, more, hm⟩ :=
      inStep_acts exp h.summed h.engine (Accounting.engineActs value state.pool action)
    rw [← hengine] at hsummed hm
    refine ⟨more, hsummed, hm, ?_⟩
    have hpushed : pushedBy exp value crates float state.pool action = more := by
      have hbuffer := hm.buffer
      rw [← List.append_assoc, ← h.engine.buffer] at hbuffer
      rw [pushedBy, hbuffer, List.drop_left]
    rw [step, oracleActs, hpushed, List.map_append, ← h.oracle,
      ← pushed_texts (readText scan) state.oracle, List.map_map]
    rfl
  | oracle action =>
    refine ⟨[], h.summed, ?_, ?_⟩
    · rw [List.append_nil]
      exact h.engine
    have hsame : ∀ b, pushesOf b = [] →
        (Oracle.step .cut (readText scan) state.oracle b).share.pushed.map Prod.snd =
          (events ++ []).map (eventText text) := by
      intro b hb
      rw [pushed_oracle, hb, List.append_nil, List.append_nil, h.oracle]
    cases action with
    | pushShare rawEvt =>
      rw [List.append_nil]
      exact h.oracle
    | pushBlock rawBlock => exact hsame (.pushBlock rawBlock) rfl
    | readShares ok => exact hsame (.readShares ok) rfl
    | trimShares ok => exact hsame (.trimShares ok) rfl
    | applyShares order spot tx => exact hsame (.applyShares order spot tx) rfl
    | readBlocks ok => exact hsame (.readBlocks ok) rfl
    | trimBlocks ok => exact hsame (.trimBlocks ok) rfl
    | applyBlocks ok => exact hsame (.applyBlocks ok) rfl

theorem logged_run (redis : Redis R) (db : Db R) (as : List (Action Body R)) :
    ∃ events, Logged text redis
      (run (step exp value crates float text scan) (boot Body redis db) as) events := by
  refine (always_of_invariant (I := fun state => ∃ events, Logged text redis state events)
    ?_ ?_ as).last
  · exact ⟨[], allSummed_boot redis, inStep_boot redis, rfl⟩
  · rintro state a ⟨events, h⟩
    obtain ⟨more, hm⟩ := logged_step exp value crates float text scan h a
    exact ⟨events ++ more, hm⟩

end Logs

section Readings

variable (exp : R → R) (value : Float → R) (crates : Crates) (float : Float → Str)
  {text : R → Str} {scan : Str → Option R}

/-- The difficulties of the connections, and of the messages on their way, have
the property. -/
structure Rated (P : UInt64 → Prop) (pool : Accounting.State Body R) : Prop where
  connections : ∀ conn ∈ pool.server.connections, P conn.currentDiff
  queue : ∀ m ∈ pool.server.validShares.queue, ∃ d, P d ∧ m.2 = d.toFloat

def PoolGives (P : UInt64 → Prop) : Accounting.Action Body R → Prop
  | .server action => GivesOnly P action
  | _ => True

variable {P : UInt64 → Prop}

theorem rated_step {pool : Accounting.State Body R} (h : Rated P pool)
    {a : Accounting.Action Body R} (ha : PoolGives P a) :
    Rated P (Accounting.step exp value crates float pool a) := by
  have hqueue : ∀ action, ∀ m ∈ (Server.step crates float pool.server action).validShares.queue,
      ∃ d, P d ∧ m.2 = d.toFloat := by
    intro action m hm
    obtain hm | haccepted := mem_queue_step crates float hm
    · exact h.queue m hm
    · obtain ⟨conn, hconn, hdiff⟩ := accepted_difficulty crates float haccepted
      exact ⟨conn.currentDiff, h.connections conn hconn, hdiff⟩
  cases a with
  | server action =>
    cases action with
    | receiveShare => exact h
    | _ => exact ⟨connections_step crates float h.connections ha, hqueue _⟩
  | receive now =>
    simp only [Accounting.step, Accounting.receive]
    split
    · exact h
    · exact ⟨h.connections, hqueue .receiveShare⟩
  | flush now order ok => exact ⟨h.connections, h.queue⟩

theorem rated_run (redis : Redis R) {as : List (Accounting.Action Body R)}
    (has : ∀ a ∈ as, PoolGives P a) :
    Always (Accounting.step exp value crates float) (Rated P) (Accounting.boot Body redis) as := by
  refine Guarded.always (G := fun _ a => PoolGives P a)
    (guarded_of_forall (fun _ => has)) ?_ (fun _ a h ha => rated_step exp value crates float h ha)
  exact ⟨by simp [Accounting.boot, Server.boot],
    by simp [Accounting.boot, Server.boot, Channel.empty]⟩

/-- So have the difficulties of the shares that the engine is given. -/
theorem rated_arrived (redis : Redis R) {as : List (Accounting.Action Body R)}
    (has : ∀ a ∈ as, PoolGives P a) :
    ∀ e ∈ arrivedOver (Accounting.engineOver exp value crates float
        (Accounting.boot Body redis) as),
      ∃ d, P d ∧ e.difficulty = value d.toFloat := by
  have hrated := rated_run exp value crates float redis has
  induction as using List.reverseRecOn with
  | nil => simp [Accounting.engineOver, expand, arrivedOver]
  | append_singleton pre a ih =>
    have hbefore := ih (fun b hb => has b (List.mem_append_left _ hb))
      (fun p hp => hrated p (hp.trans (List.prefix_append _ _)))
    have hhere := hrated pre (List.prefix_append _ _)
    intro e he
    rw [Accounting.engineOver, expand_concat, arrivedOver, List.map_append, List.sum_append,
      Multiset.mem_add] at he
    obtain he | he := he
    · exact hbefore e he
    · cases a with
      | server action => simp [Accounting.engineActs] at he
      | receive now =>
        rw [Accounting.engineActs] at he
        cases hnext : nextShare (run (Accounting.step exp value crates float)
            (Accounting.boot Body redis) pre) with
        | none => simp [hnext] at he
        | some m =>
          simp only [hnext, Option.map_some, Option.toList_some, List.map_cons, List.map_nil,
            List.sum_cons, List.sum_nil, add_zero, arrived, Multiset.mem_singleton] at he
          rw [nextShare] at hnext
          split at hnext
          · obtain ⟨d, hd, hm⟩ := hhere.queue m (List.mem_of_head? hnext)
            exact ⟨d, hd, by rw [he, hm]⟩
          · cases hnext
      | flush now order ok => simp [Accounting.engineActs, arrived] at he

omit [Field R] [LinearOrder R] in
/-- The oracle reads the text of an event back as the event. -/
theorem read_event {e : OracleEvent R} (h : Prints text scan e.difficulty) :
    readText scan (eventText text e) = some e.toJson := by
  apply readText_render
  simp [OracleEvent.toJson, Readable, ReadableFields, Number.Readable, h]

end Readings

section Books

variable (exp : R → R) (value : Float → R) (crates : Crates) (float : Float → Str)
  (text : R → Str) (scan : Str → Option R)

/-- The difficulties that connections are given count for something, and the
reader of the oracle reads what the engine prints for them. -/
def Gives : Action Body R → Prop
  | .pool action =>
      PoolGives (fun d => 0 < value d.toFloat ∧ Prints text scan (value d.toFloat)) action
  | .oracle _ => True

/-- The events that are trimmed from the list and reach no table. -/
def spilt (redis : Redis R) (db : Db R) (as : List (Action Body R)) : List (Nat × Str) :=
  spilledOver (Oracle.step .cut (readText scan)) Oracle.State.share (shareAct .cut (readText scan))
    (Oracle.boot db) (oracleOver exp value crates float text scan redis db as)

/-- The events that reach the tables and are in the list as before. -/
def doubled (redis : Redis R) (db : Db R) (as : List (Action Body R)) : List (Nat × Str) :=
  recurringOver (Oracle.step .cut (readText scan)) Oracle.State.share (shareAct .cut (readText scan))
    (Oracle.boot db) (oracleOver exp value crates float text scan redis db as)

/-- What the events of a list are worth to the wallet in Postgres. -/
def yieldIn (wallet : Str) (events : List (Nat × Str)) : R :=
  weigh (deltaTo (readText scan) wallet) events

variable {exp value crates float text scan}

theorem gives_poolOver {as : List (Action Body R)} (has : ∀ a ∈ as, Gives value text scan a) :
    ∀ a ∈ poolOver as,
      PoolGives (fun d => 0 < value d.toFloat ∧ Prints text scan (value d.toFloat)) a := by
  intro a ha
  obtain ⟨b, hb, hmem⟩ := List.mem_flatMap.mp ha
  cases b with
  | pool action =>
    rw [List.mem_singleton.mp hmem]
    exact has _ hb
  | oracle action => cases hmem

theorem givesDifficulty_of_gives {a : Accounting.Action Body R}
    (h : PoolGives (fun d => 0 < value d.toFloat ∧ Prints text scan (value d.toFloat)) a) :
    GivesDifficulty value a := by
  cases a with
  | server action =>
    cases action with
    | connect connId currentDiff => exact h.1
    | retarget index newDiff => exact h.1
    | _ => trivial
  | _ => trivial

/-- Every event that was ever pushed came from the server. -/
theorem pushed_sent {redis : Redis R} {db : Db R} {as : List (Action Body R)}
    {events : List (OracleEvent R)}
    (hlog : Logged text redis
      (run (step exp value crates float text scan) (boot Body redis db) as) events) :
    ∀ e ∈ events, e ∈ arrivedOver (Accounting.engineOver exp value crates float
      (Accounting.boot Body redis) (poolOver as)) := by
  have hengine := hlog.engine
  rw [pool_run, Accounting.engine_eq] at hengine
  exact fun e he => Multiset.mem_of_le (pushed_arrived exp hengine) he

/-- Every event that was ever pushed is read back. -/
theorem pushed_read {redis : Redis R} {db : Db R} {as : List (Action Body R)}
    (has : ∀ a ∈ as, Gives value text scan a) {events : List (OracleEvent R)}
    (hlog : Logged text redis
      (run (step exp value crates float text scan) (boot Body redis db) as) events) :
    ∀ e ∈ events, readText scan (eventText text e) = some e.toJson := by
  intro e he
  obtain ⟨d, hd, hdiff⟩ :=
    rated_arrived exp value crates float redis (gives_poolOver has) e (pushed_sent hlog e he)
  apply read_event
  rw [hdiff]
  exact hd.2

variable [IsStrictOrderedRing R]

/-- From the socket to Postgres: at every time of every run, whatever fails on
the way, the yield of a wallet is that of its accepted shares, but for what is
in the channel, with the engine, in the list or in the oracle's hand, what was
dropped, evicted or trimmed and not written, and what was written and not trimmed. -/
theorem yields_accounted {wallet : Str} (hw : wallet ≠ []) (redis : Redis R) (db : Db R)
    {as : List (Action Body R)} (has : ∀ a ∈ as, Gives value text scan a)
    (hown : Unmixed (arrivedOver (Accounting.engineOver exp value crates float
      (Accounting.boot Body redis) (poolOver as))) wallet) :
    let state := run (step exp value crates float text scan) (boot Body redis db) as
    let start := Accounting.boot Body redis
    column YieldReservoir.totalYieldKas state.oracle.db wallet +
        yieldIn scan wallet state.oracle.share.buffer +
        yieldIn scan wallet state.oracle.share.loose +
        yieldIn scan wallet (spilt exp value crates float text scan redis db as) +
        0.000005 * (unflushed wallet state.pool.engine +
          worth value wallet state.pool.server.validShares.queue +
          lostOver wallet exp (Telemetry.boot redis)
            (Accounting.engineOver exp value crates float start (poolOver as)) +
          worth value wallet
            (Accounting.droppedOver exp value crates float start (poolOver as))) =
      column YieldReservoir.totalYieldKas db wallet +
        0.000005 * worth value wallet
          (Accounting.acceptedOver exp value crates float start (poolOver as)) +
        yieldIn scan wallet (doubled exp value crates float text scan redis db as) := by
  intro state start
  obtain ⟨events, hlog⟩ := logged_run exp value crates float text scan redis db as
  have hpool : state.pool = run (Accounting.step exp value crates float) start (poolOver as) :=
    pool_run exp value crates float text scan redis db as
  have horacle : state.oracle = run (Oracle.step .cut (readText scan)) (Oracle.boot db)
      (oracleOver exp value crates float text scan redis db as) :=
    oracle_run exp value crates float text scan redis db as
  have htables : column YieldReservoir.totalYieldKas (run (Oracle.step .cut (readText scan))
      (Oracle.boot db) (oracleOver exp value crates float text scan redis db as)).db wallet =
        column YieldReservoir.totalYieldKas db wallet +
          weigh (deltaTo (readText scan) wallet) (run (Oracle.step .cut (readText scan))
            (Oracle.boot db)
            (oracleOver exp value crates float text scan redis db as)).share.applied :=
    (tables_reflect_applied .cut (readText scan) db _).last.yields _ totalYield_accrues wallet
  have hlist := balanced_run (deltaTo (readText scan) wallet) (share_refines .cut (readText scan))
    (s := Oracle.boot db) rfl (oracleOver exp value crates float text scan redis db as)
  rw [← horacle] at htables hlist
  have hpushed : weigh (deltaTo (readText scan) wallet) state.oracle.share.pushed =
      0.000005 * walletCredit wallet events := by
    have hsum := sum_deltas (pushed_read has hlog)
      (fun e he => hown e (pushed_sent hlog e he))
    rw [if_neg hw, sub_zero, ← hlog.oracle, List.map_map] at hsum
    exact hsum
  have hledger := hlog.engine.wallets wallet
  have hreceived := Accounting.received_balance exp value crates float wallet redis
    (fun a ha => givesDifficulty_of_gives (gives_poolOver has a ha))
  have haccepted := Accounting.accepted_worth exp value crates float wallet redis (poolOver as)
  simp only at hreceived
  rw [← hpool] at hreceived haccepted
  rw [HandOff.Balanced, hpushed] at hlist
  rw [yieldIn, yieldIn, yieldIn, yieldIn, spilt, doubled]
  linear_combination htables + hlist - 0.000005 * hledger + 0.000005 * hreceived -
    0.000005 * haccepted

end Books

section Examples

open StratumPool.Server
open StratumPool.Accounting (realOf realOf_one creditedRun)
open StratumPool.EndToEnd (printOne noRows)
open StratumPool.Isolation (allReached)

noncomputable def scanOne (token : Str) : Option ℝ := if token = lit "1.0" then some 1 else none

/-- One share from its submission to Postgres. -/
def settledRun : List (Action Unit ℝ) :=
  creditedRun.map .pool ++ [.oracle (.readShares true), .oracle (.trimShares true),
    .oracle (.applyShares (.asStored _) none allReached)]

theorem prints_one : Prints printOne scanOne 1 := by
  have htext : printOne 1 = ['1', '.', '0'] := rfl
  refine ⟨by simp [scanOne, printOne], ?_, '.', ?_, rfl, by decide⟩
  · rw [htext]
    simp [isNumberChar]
  · simp [htext]

theorem gives_settledRun : ∀ a ∈ settledRun, Gives realOf printOne scanOne a := by
  intro a ha
  simp only [settledRun, creditedRun, List.map_cons, List.map_nil, List.cons_append,
    List.nil_append, List.mem_cons, List.not_mem_nil, or_false] at ha
  obtain rfl | rfl | rfl | rfl | rfl | rfl | rfl | rfl | rfl := ha
  case inr.inr.inl =>
    have hgives : 0 < realOf ((1 : UInt64).toFloat) ∧
        Prints printOne scanOne (realOf ((1 : UInt64).toFloat)) := by
      rw [realOf_one]
      exact ⟨one_pos, prints_one⟩
    exact hgives
  all_goals trivial

theorem settledRun_unmixed (wallet : Str) :
    Unmixed (arrivedOver (Accounting.engineOver Real.exp realOf tameCrates (fun _ => [])
      (Accounting.boot Unit emptyRedis) (poolOver settledRun))) wallet := by
  have hacts : Accounting.engineOver Real.exp realOf tameCrates (fun _ => [])
      (Accounting.boot Unit emptyRedis) (poolOver settledRun) =
        [.share (lit "kaspa:qz0.rig") (realOf ((1 : UInt64).toFloat)) 0,
          .flush 1000 (.asStored _) true] := rfl
  apply unmixed_of_short
  intro e he
  simp only [hacts, arrivedOver, arrived, List.map_cons, List.map_nil, List.sum_cons, List.sum_nil,
    add_zero, Multiset.mem_singleton] at he
  rw [he]
  decide

theorem settled_run_accounted :
    let state := run (step Real.exp realOf tameCrates (fun _ => []) printOne scanOne)
      (boot Unit emptyRedis noRows) settledRun
    let start := Accounting.boot Unit emptyRedis
    column YieldReservoir.totalYieldKas state.oracle.db (lit "kaspa:qz0") +
        yieldIn scanOne (lit "kaspa:qz0") state.oracle.share.buffer +
        yieldIn scanOne (lit "kaspa:qz0") state.oracle.share.loose +
        yieldIn scanOne (lit "kaspa:qz0") (spilt Real.exp realOf tameCrates (fun _ => []) printOne
          scanOne emptyRedis noRows settledRun) +
        0.000005 * (unflushed (lit "kaspa:qz0") state.pool.engine +
          worth realOf (lit "kaspa:qz0") state.pool.server.validShares.queue +
          lostOver (lit "kaspa:qz0") Real.exp (Telemetry.boot emptyRedis)
            (Accounting.engineOver Real.exp realOf tameCrates (fun _ => []) start
              (poolOver settledRun)) +
          worth realOf (lit "kaspa:qz0") (Accounting.droppedOver Real.exp realOf tameCrates
            (fun _ => []) start (poolOver settledRun))) =
      column YieldReservoir.totalYieldKas noRows (lit "kaspa:qz0") +
        0.000005 * worth realOf (lit "kaspa:qz0") (Accounting.acceptedOver Real.exp realOf
          tameCrates (fun _ => []) start (poolOver settledRun)) +
        yieldIn scanOne (lit "kaspa:qz0") (doubled Real.exp realOf tameCrates (fun _ => [])
          printOne scanOne emptyRedis noRows settledRun) :=
  yields_accounted (by decide) emptyRedis noRows gives_settledRun (settledRun_unmixed _)

end Examples

end StratumPool.Settlement
