import StratumPool.Document

namespace StratumPool.IterationOrder

open Lib Lib.Runs StratumPool.Text StratumPool.Telemetry StratumPool.Ledger
open StratumPool.FailedFlush (pushed creditedEvents pushed_pipeline shareBuffer_execAll)
open StratumPool.Status (execAll_append flush_of_empty redis_flush)
open StratumPool.Gauges (gauge_flush)

variable {R : Type} [Field R]

/-- Two documents that list the same workers, in some order. -/
structure SameRows (p q : Payload R) : Prop where
  total : p.totalHashrate = q.totalHashrate
  rows : p.workers.Perm q.workers

/-- Two engines that nothing outside tells apart, but for the order of the rows
of a document and of the events of different workers. -/
structure Alike (engine other : Engine R) : Prop where
  states : ∀ worker, engine.workerStates.lookup worker = other.workerStates.lookup worker
  gauges : ∀ worker, engine.workerHashrate worker = other.workerHashrate worker
  numbers : engine.redis.numbers = other.redis.numbers
  workers : engine.redis.poolWorkers = other.redis.poolWorkers
  events : ∀ worker, engine.redis.shareBuffer.filter (fun e => e.worker = worker) =
    other.redis.shareBuffer.filter (fun e => e.worker = worker)
  telemetry : Option.Rel SameRows engine.redis.telemetry other.redis.telemetry
  published : List.Forall₂ SameRows engine.redis.published other.redis.published

/-- The same step, with loops that may visit the workers differently. -/
inductive SameButOrder : Action R → Action R → Prop where
  | share (worker : Str) (difficulty : R) (now : Nat) :
      SameButOrder (.share worker difficulty now) (.share worker difficulty now)
  | flush (now : Nat) (order other : IterOrder (Sigma fun _ : Str => WorkerState R)) (ok : Bool) :
      SameButOrder (.flush now order ok) (.flush now other ok)

omit [Field R] in
theorem SameRows.refl (p : Payload R) : SameRows p p := ⟨rfl, .rfl⟩

omit [Field R] in
theorem Alike.refl (engine : Engine R) : Alike engine engine := by
  refine ⟨fun _ => rfl, fun _ => rfl, rfl, rfl, fun _ => rfl, ?_, ?_⟩
  · cases engine.redis.telemetry with
    | none => exact .none
    | some p => exact .some (SameRows.refl p)
  · exact List.forall₂_same.mpr (fun p _ => SameRows.refl p)

section Commands

/-- A Redis without what keeps the order of its writes. -/
def settled (redis : Redis R) : Redis R :=
  { redis with shareBuffer := [], telemetry := none, published := [] }

def settledExec (redis : Redis R) (c : Cmd R) : Redis R := settled (redis.exec c)

theorem settled_exec (redis : Redis R) (c : Cmd R) :
    settled (redis.exec c) = settledExec (settled redis) c := by
  cases c <;> rfl

theorem settled_execAll (redis : Redis R) (cs : List (Cmd R)) :
    settled (redis.execAll cs) = cs.foldl settledExec (settled redis) := by
  induction cs generalizing redis with
  | nil => rfl
  | cons c cs ih =>
    rw [Redis.execAll, List.foldl_cons, ← Redis.execAll, ih, settled_exec, List.foldl_cons]

/-- The commands that one tick has for the workers: only hashrates are
overwritten, each worker has one, and each is either listed or taken off the list. -/
def OfTick (rate : Str → R) (listed : Str → Prop) : Cmd R → Prop
  | .set key value => ∃ worker, key = .workerHashrate worker ∧ value = rate worker
  | .incrByFloat key _ => ∀ worker, key ≠ .workerHashrate worker
  | .sadd worker => listed worker
  | .srem worker => ¬ listed worker
  | .rpush _ => True
  | .setTelemetry _ | .publish _ => False

variable {rate : Str → R} {listed : Str → Prop}

/-- Whatever two commands of a tick do, they do in either order. -/
theorem commands_commute {c d : Cmd R} (hc : OfTick rate listed c) (hd : OfTick rate listed d)
    (redis : Redis R) :
    settledExec (settledExec redis c) d = settledExec (settledExec redis d) c := by
  cases c with
  | set key value =>
    obtain ⟨worker, rfl, rfl⟩ := hc
    cases d with
    | set other value =>
      obtain ⟨name, rfl, rfl⟩ := hd
      by_cases hname : worker = name
      · rw [hname]
      · have hkey : Key.workerHashrate worker ≠ .workerHashrate name := by simpa using hname
        simp [settledExec, settled, Redis.exec, Function.update_comm hkey]
    | incrByFloat other increment =>
      have hkey := hd worker
      simp [settledExec, settled, Redis.exec, Function.update_comm hkey,
        Function.update_of_ne hkey]
    | _ => rfl
  | incrByFloat key increment =>
    cases d with
    | set other value =>
      obtain ⟨name, rfl, rfl⟩ := hd
      have hkey := hc name
      simp [settledExec, settled, Redis.exec, Function.update_comm hkey,
        Function.update_of_ne hkey]
    | incrByFloat other amount =>
      by_cases hkey : key = other
      · subst hkey
        simp [settledExec, settled, Redis.exec, add_right_comm]
      · simp [settledExec, settled, Redis.exec, Function.update_comm hkey,
          Function.update_of_ne hkey, Function.update_of_ne (Ne.symm hkey)]
    | _ => rfl
  | sadd worker =>
    cases d with
    | sadd name => simp [settledExec, settled, Redis.exec, Finset.insert_comm]
    | srem name =>
      have hname : name ≠ worker := by
        rintro rfl
        exact hd hc
      simp [settledExec, settled, Redis.exec, Finset.erase_insert_of_ne hname.symm]
    | _ => rfl
  | srem worker =>
    cases d with
    | sadd name =>
      have hname : worker ≠ name := by
        rintro rfl
        exact hc hd
      simp [settledExec, settled, Redis.exec, Finset.erase_insert_of_ne hname.symm]
    | srem name => simp [settledExec, settled, Redis.exec, Finset.erase_right_comm]
    | _ => rfl
  | rpush event =>
    cases d <;> rfl
  | setTelemetry p => exact hc.elim
  | publish p => exact hc.elim

/-- Commands of one tick leave the same numbers and the same list in any order. -/
theorem settled_perm {cs ds : List (Cmd R)} (hp : cs.Perm ds)
    (hcs : ∀ c ∈ cs, OfTick rate listed c) {redis other : Redis R}
    (h : settled redis = settled other) :
    settled (redis.execAll cs) = settled (other.execAll ds) := by
  rw [settled_execAll, settled_execAll, h]
  apply hp.foldl_eq'
  intro c hc d hd store
  exact commands_commute (hcs c hc) (hcs d hd) store

def announced : Cmd R → Option (Payload R)
  | .publish payload => some payload
  | _ => none

theorem published_execAll (redis : Redis R) (cs : List (Cmd R)) :
    (redis.execAll cs).published = redis.published ++ cs.filterMap announced := by
  induction cs generalizing redis with
  | nil => exact (List.append_nil _).symm
  | cons c cs ih =>
    rw [Redis.execAll, List.foldl_cons, ← Redis.execAll, ih]
    cases c <;> simp [Redis.exec, announced, List.filterMap_cons]

omit [Field R] in
theorem announced_of_tick {c : Cmd R} (h : OfTick rate listed c) : announced c = none := by
  cases c with
  | publish p => exact h.elim
  | _ => rfl

end Commands

section Tick

variable [LinearOrder R] (exp : R → R) (now : Nat)

/-- The hashrate that a tick writes for a worker in the map. -/
def writtenRate (states : Table Str (WorkerState R)) (worker : Str) : R :=
  (states.lookup worker).elim 0 (fun state =>
    if isOnline exp now state then currentHashrate exp now state else 0)

def Listed (states : Table Str (WorkerState R)) (worker : Str) : Prop :=
  ∃ state, states.lookup worker = some state ∧ isOnline exp now state = true

theorem ofTick_workerCmds {states : Table Str (WorkerState R)} {worker : Str}
    {state : WorkerState R} (h : states.lookup worker = some state) :
    ∀ c ∈ workerCmds exp now worker state,
      OfTick (writtenRate exp now states) (Listed exp now states) c := by
  intro c hc
  cases hon : isOnline exp now state with
  | true =>
    have hrate : writtenRate exp now states worker = currentHashrate exp now state := by
      rw [writtenRate, h, Option.elim_some, if_pos hon]
    rw [workerCmds, if_pos hon] at hc
    obtain rfl | hc := List.mem_cons.mp hc
    · exact ⟨worker, rfl, hrate.symm⟩
    · rw [creditCmds] at hc
      split at hc
      · simp only [List.cons_append, List.nil_append, List.mem_cons, List.mem_map] at hc
        obtain rfl | rfl | rfl | ⟨s, -, rfl⟩ := hc
        · simp [OfTick]
        · exact ⟨state, h, hon⟩
        · simp [OfTick]
        · trivial
      · cases hc
  | false =>
    have hrate : writtenRate exp now states worker = 0 := by
      rw [writtenRate, h, Option.elim_some, hon]
      rfl
    have hgone : ¬ Listed exp now states worker := by
      rintro ⟨held, hheld, honline⟩
      rw [h] at hheld
      cases hheld
      rw [hon] at honline
      cases honline
    simp only [workerCmds, hon, Bool.false_eq_true, if_false, List.mem_cons, List.not_mem_nil,
      or_false] at hc
    obtain rfl | rfl := hc
    · exact ⟨worker, rfl, hrate.symm⟩
    · exact hgone

/-- The rows of a document come as the loop meets the workers. -/
theorem sameRows_payload {entries others : Entries R} (hp : entries.Perm others) :
    SameRows (payload exp now entries) (payload exp now others) := by
  have honline := hp.filter (fun e => isOnline exp now e.2)
  exact ⟨(honline.map _).sum_eq, honline.map _⟩

/-- A tick publishes one document. -/
theorem published_pipeline (redis : Redis R) (entries : Entries R) :
    (redis.execAll (pipeline exp now entries)).published =
      redis.published ++ [payload exp now entries] := by
  have hworkers : (entries.flatMap (fun e => workerCmds exp now e.1 e.2)).filterMap announced =
      [] := by
    apply List.filterMap_eq_nil_iff.mpr
    intro c hc
    obtain ⟨e, -, hmem⟩ := List.mem_flatMap.mp hc
    have hlookup : (AList.insert e.1 e.2 ∅ : Table Str (WorkerState R)).lookup e.1 = some e.2 :=
      AList.lookup_insert _
    exact announced_of_tick (ofTick_workerCmds exp now hlookup c hmem)
  rw [published_execAll, pipeline, List.filterMap_append, hworkers]
  rfl

theorem settled_pipeline {t u : Table Str (WorkerState R)} (h : ∀ k, t.lookup k = u.lookup k)
    (order other : IterOrder (Sigma fun _ : Str => WorkerState R)) {redis store : Redis R}
    (hsettled : settled redis = settled store) :
    settled (redis.execAll (pipeline exp now (order.apply t.entries))) =
      settled (store.execAll (pipeline exp now (other.apply u.entries))) := by
  have hp := Table.order_perm h order other
  have hcmds : ∀ c ∈ (order.apply t.entries).flatMap (fun e => workerCmds exp now e.1 e.2),
      OfTick (writtenRate exp now t) (Listed exp now t) c := by
    intro c hc
    obtain ⟨e, he, hmem⟩ := List.mem_flatMap.mp hc
    have hlookup := (Table.mem_entries_iff t e.1 e.2).mp ((order.perm _).mem_iff.mp he)
    exact ofTick_workerCmds exp now hlookup c hmem
  have hworkers := settled_perm (hp.flatMap_right _) hcmds hsettled
  have htotal := (sameRows_payload exp now hp).total
  rw [pipeline, pipeline, execAll_append, execAll_append, settled_execAll, hworkers, htotal,
    settled_execAll (store.execAll _)]
  rfl

/-- A worker's events of one tick, as they are in the share buffer. -/
theorem pushed_of_worker (t : Table Str (WorkerState R))
    (order : IterOrder (Sigma fun _ : Str => WorkerState R)) (worker : Str) :
    ((pipeline exp now (order.apply t.entries)).filterMap pushed).filter
        (fun e => e.worker = worker) =
      (t.lookup worker).elim [] (creditedEvents exp now worker) := by
  have hnamed : ∀ name state, ∀ event ∈ creditedEvents exp now name state, event.worker = name := by
    intro name state event hevent
    rw [creditedEvents] at hevent
    split at hevent
    · obtain ⟨s, -, rfl⟩ := List.mem_map.mp hevent
      rfl
    · cases hevent
  rw [pushed_pipeline, Table.filter_flatMap _ _ hnamed (Table.nodupKeys_order order t),
    Table.dlookup_order]

end Tick

section Runs

variable [LinearOrder R] (exp : R → R)

theorem alike_share {engine other : Engine R} (h : Alike engine other) (worker : Str)
    (difficulty : R) (now : Nat) :
    Alike (share exp engine worker difficulty now) (share exp other worker difficulty now) := by
  refine { h with states := ?_ }
  intro name
  rw [share, share, h.states worker]
  by_cases hname : name = worker
  · rw [hname, AList.lookup_insert, AList.lookup_insert]
  · rw [AList.lookup_insert_ne hname, AList.lookup_insert_ne hname]
    exact h.states name

omit [Field R] [LinearOrder R] in
theorem Alike.empty_iff {engine other : Engine R} (h : Alike engine other) :
    engine.workerStates.entries = [] ↔ other.workerStates.entries = [] := by
  have hp : engine.workerStates.entries.Perm other.workerStates.entries :=
    Table.order_perm h.states (.asStored _) (.asStored _)
  constructor
  · intro hempty
    rw [hempty] at hp
    exact hp.nil_eq.symm
  · intro hempty
    rw [hempty] at hp
    exact hp.eq_nil

omit [Field R] [LinearOrder R] in
theorem Alike.settled_redis {engine other : Engine R} (h : Alike engine other) :
    settled engine.redis = settled other.redis := by
  rw [settled, settled, h.numbers, h.workers]

theorem alike_flush {engine other : Engine R} (h : Alike engine other) (now : Nat)
    (order loop : IterOrder (Sigma fun _ : Str => WorkerState R)) (ok : Bool) :
    Alike (flush exp engine now order ok) (flush exp other now loop ok) := by
  by_cases hempty : engine.workerStates.entries = []
  · rw [flush_of_empty exp now hempty, flush_of_empty exp now (h.empty_iff.mp hempty)]
    exact h
  have hstates : ∀ worker, (flush exp engine now order ok).workerStates.lookup worker =
      (flush exp other now loop ok).workerStates.lookup worker := by
    intro worker
    rw [lookup_flush, lookup_flush, h.states]
  have hgauges : ∀ worker, (flush exp engine now order ok).workerHashrate worker =
      (flush exp other now loop ok).workerHashrate worker := by
    intro worker
    rw [gauge_flush, gauge_flush, h.gauges, h.states]
  cases ok with
  | false =>
    refine ⟨hstates, hgauges, ?_, ?_, ?_, ?_, ?_⟩ <;>
      simp only [redis_failed_flush]
    · exact h.numbers
    · exact h.workers
    · exact h.events
    · exact h.telemetry
    · exact h.published
  | true =>
    have hother := mt h.empty_iff.mpr hempty
    have hsettled := settled_pipeline exp now h.states order loop h.settled_redis
    have hrows := sameRows_payload exp now (Table.order_perm h.states order loop)
    refine ⟨hstates, hgauges, ?_, ?_, ?_, ?_, ?_⟩
    · rw [redis_flush exp now hempty, redis_flush exp now hother]
      exact (congrArg Redis.numbers hsettled :)
    · rw [redis_flush exp now hempty, redis_flush exp now hother]
      exact (congrArg Redis.poolWorkers hsettled :)
    · intro worker
      rw [redis_flush exp now hempty, redis_flush exp now hother, shareBuffer_execAll,
        shareBuffer_execAll, List.filter_append, List.filter_append, h.events, pushed_of_worker,
        pushed_of_worker, h.states]
    · rw [redis_flush exp now hempty, redis_flush exp now hother,
        (Document.telemetry_pipeline exp now _ _).1, (Document.telemetry_pipeline exp now _ _).1]
      exact .some hrows
    · rw [redis_flush exp now hempty, redis_flush exp now hother, published_pipeline,
        published_pipeline]
      exact List.rel_append h.published (.cons hrows .nil)

theorem alike_step {engine other : Engine R} (h : Alike engine other) {a b : Action R}
    (hab : SameButOrder a b) : Alike (step exp engine a) (step exp other b) := by
  cases hab with
  | share worker difficulty now => exact alike_share exp h worker difficulty now
  | flush now order loop ok => exact alike_flush exp h now order loop ok

theorem alike_run {engine other : Engine R} (h : Alike engine other) {as bs : List (Action R)}
    (hab : List.Forall₂ SameButOrder as bs) :
    Alike (run (step exp) engine as) (run (step exp) other bs) := by
  induction hab generalizing engine other with
  | nil => exact h
  | cons hfirst _ ih => exact ih (alike_step exp h hfirst)

/-- In whatever order the loops of the ticks meet the workers, a run comes to the
same ledgers, counts, hashrates and list of workers, and to the same documents
and events of each worker. -/
theorem order_unobservable (redis : Redis R) {as bs : List (Action R)}
    (hab : List.Forall₂ SameButOrder as bs) :
    Alike (run (step exp) (boot redis) as) (run (step exp) (boot redis) bs) :=
  alike_run exp (Alike.refl (boot redis)) hab

end Runs

section Examples

open StratumPool.LedgerRuns (rig emptyRedis)

def backwards (K V : Type) : IterOrder (Sigma fun _ : K => V) := ⟨List.reverse, List.reverse_perm⟩

/-- Two workers of one wallet, met first to last and last to first. -/
theorem loops_backwards_alike :
    Alike
      (run (step Real.exp) (boot emptyRedis)
        [.share rig 1 0, .share (lit "kaspa:qz0.pit") 2 500, .flush 1000 (.asStored _) true])
      (run (step Real.exp) (boot emptyRedis)
        [.share rig 1 0, .share (lit "kaspa:qz0.pit") 2 500, .flush 1000 (backwards _ _) true]) :=
  order_unobservable Real.exp emptyRedis
    (.cons (.share rig 1 0) (.cons (.share _ 2 500) (.cons (.flush 1000 _ _ true) .nil)))

end Examples

end StratumPool.IterationOrder
