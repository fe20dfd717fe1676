import StratumPool.Status
import StratumPool.Views

namespace StratumPool.Gauges

open Lib Lib.Runs StratumPool.Text StratumPool.Telemetry StratumPool.Ledger
open StratumPool.LedgerRuns (ReachesRedis)
open StratumPool.Status (rateOf rateAfter rate_flush flush_of_empty)
open StratumPool.Views (workerNames namesIn)

-- Nothing is asked of the operations: doubles have them, and so have exact numbers.
variable {R : Type} [Add R] [Sub R] [Mul R] [Div R] [Neg R] [Zero R] [One R] [NatCast R]
  [OfScientific R] [LT R] [DecidableLT R]

section Exports

variable (engine : Engine R) (worker : Str)

/-- The `WORKER_HASHRATE` gauge of the worker, in TH/s. -/
def gaugeOf : R := (engine.workerHashrate worker).getD 0

/-- The value of `worker:<w>:hashrate`. -/
def storedRate : R := (rateOf engine.redis worker).getD 0

/-- Prometheus and Redis have the same hashrate of the worker. -/
def Reported : Prop := gaugeOf engine worker * 1e12 = storedRate engine worker

/-- The way to TH/s and back loses nothing of the rate. -/
def SurvivesTera (rate : R) : Prop := rate / 1e12 * 1e12 = rate

end Exports

section Flush

variable (exp : R → R) (now : Nat)

def gaugeAfter (before : Option R) : Option (WorkerState R) → Option R
  | none => before
  | some state =>
      if isOnline exp now state then some (currentHashrate exp now state / 1e12) else before

omit [Add R] in
theorem setGauges_apply {entries : Entries R} (hnd : entries.NodupKeys) (gauge : Str → Option R)
    (worker : Str) :
    setGauges exp now entries gauge worker =
      gaugeAfter exp now (gauge worker) (entries.dlookup worker) := by
  induction entries generalizing gauge with
  | nil => rfl
  | cons e entries ih =>
    obtain ⟨hnew, hrest⟩ := List.nodupKeys_cons.mp hnd
    rw [setGauges, List.foldl_cons, ← setGauges, ih hrest]
    by_cases hw : worker = e.1
    · subst hw
      rw [List.dlookup_eq_none.mpr hnew, List.dlookup_cons_eq, gaugeAfter, gaugeAfter]
      split
      · apply Function.update_self
      · rfl
    · rw [List.dlookup_cons_ne _ _ hw]
      congr 1
      split
      · apply Function.update_of_ne hw
      · rfl

theorem gauge_flush (engine : Engine R) (order : IterOrder (Sigma fun _ : Str => WorkerState R))
    (ok : Bool) (worker : Str) :
    (flush exp engine now order ok).workerHashrate worker =
      gaugeAfter exp now (engine.workerHashrate worker) (engine.workerStates.lookup worker) := by
  by_cases hempty : engine.workerStates.entries = []
  · have hnone : engine.workerStates.lookup worker = none := by simp [AList.lookup, hempty]
    rw [flush_of_empty exp now hempty, hnone, gaugeAfter]
  · simp only [flush, order.isEmpty_apply, List.isEmpty_eq_false_iff.mpr hempty,
      Bool.false_eq_true, if_false]
    rw [setGauges_apply exp now (Table.nodupKeys_order order engine.workerStates)]
    rw [Table.dlookup_order]

variable (engine : Engine R) (order : IterOrder (Sigma fun _ : Str => WorkerState R)) {worker : Str}

theorem reported_flush_absent (h : engine.workerStates.lookup worker = none) :
    Reported (flush exp engine now order true) worker ↔ Reported engine worker := by
  rw [Reported, gaugeOf, storedRate, gauge_flush, rate_flush, h, gaugeAfter, rateAfter]
  rfl

variable {state : WorkerState R}

theorem reported_flush_online (h : engine.workerStates.lookup worker = some state)
    (hon : isOnline exp now state = true) :
    Reported (flush exp engine now order true) worker ↔
      SurvivesTera (currentHashrate exp now state) := by
  rw [Reported, gaugeOf, storedRate, gauge_flush, rate_flush, h, gaugeAfter, rateAfter, if_pos hon,
    if_pos hon]
  rfl

/-- The eviction writes a zero to Redis and nothing to the gauge. -/
theorem reported_flush_offline (h : engine.workerStates.lookup worker = some state)
    (hoff : isOnline exp now state = false) :
    Reported (flush exp engine now order true) worker ↔ gaugeOf engine worker * 1e12 = 0 := by
  rw [Reported, gaugeOf, storedRate, gauge_flush, rate_flush, h, gaugeAfter, rateAfter]
  simp [hoff, gaugeOf]

end Flush

section History

variable (exp : R → R) (redis : Redis R)

/-- After the flush all the workers ever seen have one hashrate in Prometheus and
in Redis. -/
def FlushAgrees (pre : List (Action R)) (flush : Action R) : Prop :=
  (run (step exp) (boot redis) pre).workerStates.entries ≠ [] → ∀ worker ∈ workerNames pre,
    Reported (run (step exp) (boot redis) (pre ++ [flush])) worker

/-- The two exports agree after every flush of a map that is not empty. -/
def RatesAgree (as : List (Action R)) : Prop :=
  ∀ pre now order ok, pre ++ [.flush now order ok] <+: as →
    FlushAgrees exp redis pre (.flush now order ok)

/-- No worker is evicted whose gauge does not read zero, and the rate of no
worker that stays is rounded on the way to its gauge and back. -/
def KeepsRates (engine : Engine R) : Action R → Prop
  | .share .. => True
  | .flush now _ _ => ∀ worker state, engine.workerStates.lookup worker = some state →
      if isOnline exp now state then SurvivesTera (currentHashrate exp now state)
      else gaugeOf engine worker * 1e12 = 0

/-- The workers that were seen and are no longer in the map are reported alike. -/
def GoneReported (pre : List (Action R)) : Prop :=
  ∀ worker ∈ workerNames pre,
    (run (step exp) (boot redis) pre).workerStates.lookup worker = none →
      Reported (run (step exp) (boot redis) pre) worker

omit [Add R] [Sub R] [Mul R] [Div R] [Neg R] [Zero R] [One R] [NatCast R] [OfScientific R] [LT R]
  [DecidableLT R] in
theorem workerNames_concat (as : List (Action R)) (a : Action R) :
    workerNames (as ++ [a]) = workerNames as ∪ (namesIn a).toFinset := by
  simp [workerNames]

/-- A worker in the map has been seen. -/
theorem seen_of_lookup {pre : List (Action R)} {worker : Str} {state : WorkerState R}
    (h : (run (step exp) (boot redis) pre).workerStates.lookup worker = some state) :
    worker ∈ workerNames pre := by
  induction pre using List.reverseRecOn generalizing state with
  | nil => simp [boot] at h
  | append_singleton pre a ih =>
    rw [workerNames_concat, Finset.mem_union]
    rw [run_concat] at h
    cases a with
    | share name difficulty now =>
      by_cases hname : worker = name
      · right
        simp [namesIn, hname]
      · left
        simp only [step, share, AList.lookup_insert_ne hname] at h
        exact ih h
    | flush now order ok =>
      left
      simp only [step, lookup_flush, Option.bind_eq_some_iff] at h
      obtain ⟨old, hold, -⟩ := h
      exact ih hold

theorem gone_share {pre : List (Action R)} (h : GoneReported exp redis pre) (name : Str)
    (difficulty : R) (now : Nat) :
    GoneReported exp redis (pre ++ [.share name difficulty now]) := by
  intro worker hseen hgone
  rw [run_concat] at hgone ⊢
  by_cases hname : worker = name
  · simp [hname, step, share] at hgone
  · have hbefore : worker ∈ workerNames pre := by
      rw [workerNames_concat] at hseen
      simpa [namesIn, hname] using hseen
    simp only [step, share, AList.lookup_insert_ne hname] at hgone
    exact h worker hbefore hgone

/-- A flush that agrees leaves no gone worker behind: those it evicts are among
the workers it reports. -/
theorem gone_flush {pre : List (Action R)} (h : GoneReported exp redis pre) {now : Nat}
    {order : IterOrder (Sigma fun _ : Str => WorkerState R)} {ok : Bool}
    (hagree : FlushAgrees exp redis pre (.flush now order ok)) :
    GoneReported exp redis (pre ++ [.flush now order ok]) := by
  intro worker hseen hgone
  have hbefore : worker ∈ workerNames pre := by simpa [workerNames_concat, namesIn] using hseen
  by_cases hempty : (run (step exp) (boot redis) pre).workerStates.entries = []
  · rw [run_concat, step, flush_of_empty exp now hempty] at hgone ⊢
    exact h worker hbefore hgone
  · exact hagree hempty worker hbefore

/-- One flush: the workers in the map decide, each by its own branch. -/
theorem flushAgrees_iff {pre : List (Action R)} (h : GoneReported exp redis pre) (now : Nat)
    (order : IterOrder (Sigma fun _ : Str => WorkerState R)) :
    FlushAgrees exp redis pre (.flush now order true) ↔
      KeepsRates exp (run (step exp) (boot redis) pre) (.flush now order true) := by
  rw [FlushAgrees, run_concat, step]
  constructor
  · intro hagree worker state hstate
    have hne : (run (step exp) (boot redis) pre).workerStates.entries ≠ [] := by
      intro hempty
      simp [AList.lookup, hempty] at hstate
    have hreported := hagree hne worker (seen_of_lookup exp redis hstate)
    cases hon : isOnline exp now state with
    | true => exact (reported_flush_online exp now _ order hstate hon).mp hreported
    | false => exact (reported_flush_offline exp now _ order hstate hon).mp hreported
  · intro hkeeps _ worker hseen
    cases hstate : (run (step exp) (boot redis) pre).workerStates.lookup worker with
    | none => exact (reported_flush_absent exp now _ order hstate).mpr (h worker hseen hstate)
    | some state =>
      have hkept := hkeeps worker state hstate
      cases hon : isOnline exp now state with
      | true =>
        rw [if_pos hon] at hkept
        exact (reported_flush_online exp now _ order hstate hon).mpr hkept
      | false =>
        rw [if_neg (by simp [hon])] at hkept
        exact (reported_flush_offline exp now _ order hstate hon).mpr hkept

/-- Over runs whose pipelines all reach Redis, the two exports agree if and only
if every worker that is evicted has a gauge at zero and no rate is rounded on
the way to its gauge and back. -/
theorem rates_agree_iff {as : List (Action R)} (hok : ∀ a ∈ as, ReachesRedis a) :
    RatesAgree exp redis as ↔ Guarded (step exp) (KeepsRates exp) (boot redis) as := by
  have hreaches : ∀ {pre now order ok}, pre ++ [.flush now order ok] <+: as → ok = true := by
    intro pre now order ok hp
    exact hok (.flush now order ok) (hp.subset (by simp))
  have hnone : GoneReported exp redis [] := fun worker hseen => by simp [workerNames] at hseen
  constructor
  · intro hagree
    have hgone : ∀ pre, pre <+: as → GoneReported exp redis pre := by
      refine prefix_induction hnone ?_
      intro pre a hp h
      cases a with
      | share name difficulty now => exact gone_share exp redis h name difficulty now
      | flush now order ok => exact gone_flush exp redis h (hagree pre now order ok hp)
    intro pre a hp
    cases a with
    | share name difficulty now => trivial
    | flush now order ok =>
      obtain rfl := hreaches hp
      exact (flushAgrees_iff exp redis (hgone pre (prefix_of_concat hp)) now order).mp
        (hagree pre now order true hp)
  · intro hguard
    have hflush : ∀ {pre now order ok}, pre ++ [.flush now order ok] <+: as →
        GoneReported exp redis pre → FlushAgrees exp redis pre (.flush now order ok) := by
      intro pre now order ok hp h
      obtain rfl := hreaches hp
      exact (flushAgrees_iff exp redis h now order).mpr (hguard pre _ hp)
    have hgone : ∀ pre, pre <+: as → GoneReported exp redis pre := by
      refine prefix_induction hnone ?_
      intro pre a hp h
      cases a with
      | share name difficulty now => exact gone_share exp redis h name difficulty now
      | flush now order ok => exact gone_flush exp redis h (hflush hp h)
    exact fun pre now order ok hp => hflush hp (hgone pre (prefix_of_concat hp))

end History

section Exact

variable {F : Type} [Field F]

theorem tera_eq : (1e12 : F) = 1000000000000 := by norm_num

variable [CharZero F] [LinearOrder F] (exp : F → F)

/-- Exact arithmetic rounds nothing: there the evicted workers alone decide. -/
theorem keepsRates_exact_iff (engine : Engine F) (now : Nat)
    (order : IterOrder (Sigma fun _ : Str => WorkerState F)) (ok : Bool) :
    KeepsRates exp engine (.flush now order ok) ↔
      ∀ worker state, engine.workerStates.lookup worker = some state →
        isOnline exp now state = false → gaugeOf engine worker = 0 := by
  have htera : (1e12 : F) ≠ 0 := by simp [tera_eq]
  refine forall_congr' (fun worker => forall_congr' (fun state => forall_congr' (fun _ => ?_)))
  cases hon : isOnline exp now state with
  | true => simp [SurvivesTera, htera]
  | false => simp [htera]

end Exact

section Examples

open LedgerRuns (rig)

local instance natCastFloat : NatCast Float := ⟨Float.ofNat⟩

/-- `f64::exp` at the arguments that the runs below meet. -/
def expTable : List (Float × Float) :=
  [(-1.0 / 1.0, 0.36787944117144233), (-1.0 / 3.0, 0.7165313105737893),
    (-1.0 / 8.0, 0.8824969025845955), (-1.0 / 21.0, 0.9534969548334767),
    (-1.0 / 55.0, 0.9819824738582275), (-1.0 / 144.0, 0.9930796124903161),
    (-1.0 / 377.0, 0.9973509949285956), (-28.0 / 8.0, 0.0301973834223185),
    (-30.0 / 8.0, 0.023517745856009107)]

def expAt (x : Float) : Float := ((expTable.find? (fun e => e.1 == x)).map Prod.snd).getD 1.0

def noRedis : Redis Float := ⟨fun _ => none, ∅, [], none, []⟩

def oneShare : List (Action Float) := [.share rig 1.0 0]

/-- The worker after its share of difficulty one. -/
def shared : WorkerState Float := bookShare expAt 1.0 0 (freshState 0)

def flushAt (now : Nat) : Action Float := .flush now (.asStored _) true

theorem lookup_oneShare :
    (run (step expAt) (boot noRedis) oneShare).workerStates.lookup rig = some shared := by
  simp [oneShare, step, share, boot, shared, -AList.insert_empty]

theorem shared_online : isOnline expAt 1000 shared = true := by decide +kernel

theorem lookup_flushed :
    (run (step expAt) (boot noRedis) (oneShare ++ [flushAt 1000])).workerStates.lookup rig =
      some (drained shared) := by
  rw [run_concat, flushAt, step, lookup_flush, lookup_oneShare, Option.bind_some, flushState,
    if_pos shared_online]

theorem gauge_flushed :
    gaugeOf (run (step expAt) (boot noRedis) (oneShare ++ [flushAt 1000])) rig =
      currentHashrate expAt 1000 shared / 1e12 := by
  rw [run_concat, flushAt, step, gaugeOf, gauge_flush, lookup_oneShare, gaugeAfter,
    if_pos shared_online, Option.getD_some]

/-- A worker that stops after one share is gone from Redis and stays on the
dashboard. -/
theorem evicted_gauge_stays :
    ¬ ∀ redis : Redis Float, ∀ as : List (Action Float), (∀ a ∈ as, ReachesRedis a) →
      RatesAgree expAt redis as := by
  intro h
  have hagree := h noRedis (oneShare ++ [flushAt 1000] ++ [flushAt 30000])
    (by simp [oneShare, flushAt, ReachesRedis]) _ 30000 (.asStored _) true List.prefix_rfl
  have hne : (run (step expAt) (boot noRedis) (oneShare ++ [flushAt 1000])).workerStates.entries ≠
      [] := by
    intro hempty
    have hnone := lookup_flushed
    rw [AList.lookup, hempty] at hnone
    cases hnone
  have hoff : isOnline expAt 30000 (drained shared) = false := by decide +kernel
  have hreported := hagree hne rig (by decide)
  rw [run_concat, step, reported_flush_offline expAt 30000 _ _ lookup_flushed hoff,
    gauge_flushed] at hreported
  exact absurd hreported (by decide +kernel)

/-- Twenty-eight seconds after the share the rate is one that TH/s round. -/
example : ¬ SurvivesTera (currentHashrate expAt 28000 shared) := by
  rw [SurvivesTera]
  decide +kernel

/-- While the worker is online, at a rate that is not rounded, the two agree. -/
theorem prompt_rates_agree : RatesAgree expAt noRedis (oneShare ++ [flushAt 1000]) := by
  apply (rates_agree_iff expAt noRedis (by simp [oneShare, flushAt, ReachesRedis])).mpr
  simp only [oneShare, flushAt, List.cons_append, List.nil_append, guarded_cons, guarded_nil,
    and_true, KeepsRates, true_and]
  intro worker state hstate
  by_cases hworker : worker = rig
  · subst hworker
    have hshared := lookup_oneShare
    rw [oneShare, run_cons, run_nil, hstate] at hshared
    rw [Option.some.inj hshared, if_pos shared_online, SurvivesTera]
    decide +kernel
  · simp [step, share, boot, AList.lookup_insert_ne hworker, -AList.insert_empty] at hstate

end Examples

end StratumPool.Gauges
