import StratumPool.Registry

namespace StratumPool.Collector

open Lib Lib.Runs StratumPool.Text StratumPool.Kaspa StratumPool.Jobs StratumPool.Registry
open StratumPool.Server (tameCrates template)

/-- The job manager with the log of its jobs and the time of the last scan, zero
before the first one. -/
structure State (Body : Type) where
  manager : JobManager Body
  log : Log Body
  scannedAt : Nat

def boot (Body : Type) : State Body := ⟨Jobs.new Body, ⟨[], []⟩, 0⟩

section Steps

variable {Body : Type} (crates : Crates)

def scanTime (state : State Body) : Jobs.Action Body → Nat
  | .scan =>
      if state.manager.sweep.staleKeys.isEmpty then state.manager.now else state.scannedAt
  | _ => state.scannedAt

def step (state : State Body) (a : Jobs.Action Body) : State Body :=
  { manager := Jobs.step crates state.manager a
    log := follow state.manager state.log a
    scannedAt := scanTime state a }

/-- A block that needs an id does not get one that is taken. -/
def FreshJob (state : State Body) : Jobs.Action Body → Prop
  | .newBlock block => block.header.isSome → ¬ Taken state.manager (lowHex state.manager.jobCounter)
  | _ => True

/-- Why the registry holds an id: its job is on the way in or on the way out, or
it was no older than 120 seconds at the last scan. -/
inductive Excused (state : State Body) (id : Str) : Prop where
  | entering (call : Call Body) (running : call ∈ state.manager.calls)
      (early : call.stage = .converted ∨ call.stage = .inserted) (named : call.job.jobId = id)
  | leaving (stale : id ∈ state.manager.sweep.staleKeys)
  | young (stampedAt : Nat) (active : id ∈ state.manager.activeJobs)
      (stamped : state.manager.jobTimestamps.lookup id = some stampedAt)
      (recent : state.scannedAt ≤ stampedAt + 120 * 1000)

/-- No id is in one of the maps without such a reason. -/
def NothingLeaks (state : State Body) : Prop :=
  ∀ id, id ∈ state.manager.activeJobs ∨ id ∈ state.manager.jobTimestamps → Excused state id

end Steps

section Leaks

variable {Body : Type} (crates : Crates)

structure Inv (state : State Body) : Prop where
  kept : Kept crates state.manager state.log
  past : state.scannedAt ≤ state.manager.now
  young : ∀ e ∈ state.log.young, state.scannedAt ≤ e.stampedAt + 120 * 1000

/-- The clock does not go back. -/
theorem now_step (manager : JobManager Body) (a : Jobs.Action Body) :
    manager.now ≤ (Jobs.step crates manager a).now := by
  cases a with
  | newBlock block =>
    rw [Jobs.step, newBlock]
    split
    · exact le_rfl
    · split <;> exact le_rfl
  | advance index =>
    rw [Jobs.step, advance]
    split
    · exact le_rfl
    · rename_i call hcall
      obtain ⟨job, entry, stage⟩ := call
      cases stage <;> exact le_rfl
  | scan =>
    rw [Jobs.step, scan]
    split <;> exact le_rfl
  | collect =>
    rw [Jobs.step, collect]
    split
    · exact le_rfl
    · split <;> exact le_rfl
  | wait millis => exact Nat.le_add_right _ _

/-- A job that is young after a step was young before, or gets its time in it. -/
theorem young_follow {manager : JobManager Body} {log : Log Body} {a : Jobs.Action Body} {e}
    (h : e ∈ (follow manager log a).young) : e ∈ log.young ∨ e.stampedAt = manager.now := by
  cases a with
  | advance index =>
    rw [follow] at h
    split at h
    · obtain h | h := List.mem_append.mp h
      · exact .inl h
      · rw [List.mem_singleton.mp h]
        exact .inr rfl
    · exact .inl h
  | scan =>
    rw [follow] at h
    split at h
    · exact .inl (List.mem_of_mem_filter h)
    · exact .inl h
  | _ => exact .inl h

variable {crates} in
theorem kept_jobs {manager : JobManager Body} {log : Log Body} (h : Kept crates manager log)
    (a : Jobs.Action Body) (ha : FreshJob ⟨manager, log, 0⟩ a) :
    Kept crates (Jobs.step crates manager a) (follow manager log a) := by
  cases a with
  | newBlock block => exact kept_newBlock crates h ha
  | advance index => exact kept_advance crates h index
  | scan => exact kept_scan crates h
  | collect => exact kept_collect crates h
  | wait millis => exact kept_wait crates h millis

theorem scanTime_le {state : State Body} (h : state.scannedAt ≤ state.manager.now)
    (a : Jobs.Action Body) : scanTime state a ≤ state.manager.now := by
  cases a with
  | scan =>
    rw [scanTime]
    split
    · exact le_rfl
    · exact h
  | _ => exact h

theorem inv_step {state : State Body} (h : Inv crates state) (a : Jobs.Action Body)
    (ha : FreshJob state a) : Inv crates (step crates state a) := by
  refine ⟨kept_jobs h.kept a ha, ?_, ?_⟩
  · exact (scanTime_le h.past a).trans (now_step crates state.manager a)
  · intro e he
    have hyoung := young_follow he
    cases a with
    | scan =>
      change e ∈ (follow state.manager state.log .scan).young at he
      change scanTime state .scan ≤ e.stampedAt + 120 * 1000
      rw [follow] at he
      rw [scanTime]
      split at he
      · rename_i hidle
        rw [if_pos hidle]
        have hnot := (List.mem_filter.mp he).2
        simp only [isOld, Bool.not_eq_true', decide_eq_false_iff_not] at hnot
        omega
      · rename_i hbusy
        rw [if_neg hbusy]
        exact h.young e he
    | _ =>
      change state.scannedAt ≤ e.stampedAt + 120 * 1000
      obtain he | hnow := hyoung
      · exact h.young e he
      · rw [hnow]
        exact h.past.trans (Nat.le_add_right _ _)

theorem Inv.excused {state : State Body} (h : Inv crates state) : NothingLeaks state := by
  intro id hid
  obtain hrow | hstale := h.kept.holds.closed id hid
  · obtain ⟨r, hr, rfl⟩ := List.mem_map.mp hrow
    have hvalue := h.kept.holds.value r hr
    have hstamp := h.kept.holds.stamp r hr
    obtain hcall | hyoung := List.mem_append.mp hr
    · obtain ⟨call, hmem, hrowOf⟩ := List.mem_filterMap.mp hcall
      rw [rowOf] at hrowOf
      split at hrowOf
      · rename_i hstage
        cases hrowOf
        exact .entering call hmem (.inl hstage) rfl
      · rename_i hstage
        cases hrowOf
        exact .entering call hmem (.inr hstage) rfl
      · cases hrowOf
      · cases hrowOf
    · obtain ⟨e, he, rfl⟩ := List.mem_map.mp hyoung
      have hactive : state.manager.activeJobs.lookup e.row.key = some e.entry := hvalue
      refine .young e.stampedAt ?_ hstamp (h.young e he)
      rw [← AList.lookup_isSome, hactive]
      rfl
  · exact .leaving hstale

theorem inv_run (as : List (Jobs.Action Body))
    (hfresh : Guarded (step crates) FreshJob (boot Body) as) :
    Always (step crates) (Inv crates) (boot Body) as :=
  hfresh.always ⟨kept_new crates, le_rfl, by simp [boot]⟩ (fun _ a h ha => inv_step crates h a ha)

/-- Where no id is reissued too early, nothing stays in the registry: what is in
either map is still being entered, is being removed, or was at most 120 seconds
old when the last sweep began. -/
theorem nothing_leaks (as : List (Jobs.Action Body))
    (hfresh : Guarded (step crates) FreshJob (boot Body) as) :
    Always (step crates) NothingLeaks (boot Body) as :=
  always_mono (fun _ h => h.excused crates) (inv_run crates as hfresh)

end Leaks

section Sweeps

variable {Body : Type} (crates : Crates)

/-- The removals that a sweep has still before it. -/
def pending (manager : JobManager Body) : Nat :=
  2 * manager.sweep.staleKeys.length - if manager.sweep.activeRemoved then 1 else 0

def isCollect : Jobs.Action Body → Bool
  | .collect => true
  | _ => false

theorem pending_eq_zero_iff (manager : JobManager Body) :
    pending manager = 0 ↔ manager.sweep.staleKeys = [] := by
  rw [pending, ← List.length_eq_zero_iff]
  split <;> omega

theorem pending_step (manager : JobManager Body) (h : manager.sweep.staleKeys ≠ [])
    (a : Jobs.Action Body) :
    pending (Jobs.step crates manager a) + (if isCollect a then 1 else 0) = pending manager := by
  cases a with
  | newBlock block =>
    rw [Jobs.step, newBlock]
    split
    · rfl
    · split <;> rfl
  | advance index =>
    rw [Jobs.step, advance]
    split
    · rfl
    · rename_i call hcall
      obtain ⟨job, entry, stage⟩ := call
      cases stage <;> rfl
  | scan =>
    rw [Jobs.step, scan, if_neg (by simpa using h)]
    rfl
  | collect =>
    rw [Jobs.step, collect]
    split
    · rename_i hnil
      exact absurd hnil h
    · rename_i key rest hstale
      split
      · rename_i hremoved
        simp [pending, isCollect, hstale, hremoved]
        omega
      · rename_i hremoved
        simp [pending, isCollect, hstale, hremoved]
        omega
  | wait millis => rfl

/-- A sweep comes to its end after two removals for each of its keys, whatever
else happens between them. -/
theorem sweep_ends (manager : JobManager Body) (as : List (Jobs.Action Body))
    (h : pending manager ≤ as.countP isCollect) :
    ∃ pre, pre <+: as ∧ (run (Jobs.step crates) manager pre).sweep.staleKeys = [] := by
  induction as generalizing manager with
  | nil =>
    refine ⟨[], List.prefix_rfl, (pending_eq_zero_iff manager).mp ?_⟩
    simpa using h
  | cons a as ih =>
    by_cases hidle : manager.sweep.staleKeys = []
    · exact ⟨[], List.nil_prefix, hidle⟩
    · have hstep := pending_step crates manager hidle a
      have hrest : pending (Jobs.step crates manager a) ≤ as.countP isCollect := by
        rw [List.countP_cons] at h
        omega
      obtain ⟨pre, hp, hend⟩ := ih (Jobs.step crates manager a) hrest
      exact ⟨a :: pre, List.cons_prefix_cons.mpr ⟨rfl, hp⟩, hend⟩

end Sweeps

section Starvation

variable {Body : Type} (crates : Crates)

/-- A job that has its time after a step had it before, or a running call gives
it the time of the step. -/
theorem stamp_step {manager : JobManager Body} {a : Jobs.Action Body} {id : Str} {t : Nat}
    (h : (Jobs.step crates manager a).jobTimestamps.lookup id = some t) :
    manager.jobTimestamps.lookup id = some t ∨ t = manager.now ∧ manager.calls ≠ [] := by
  cases a with
  | newBlock block =>
    rw [Jobs.step, newBlock] at h
    split at h
    · exact .inl h
    · split at h <;> exact .inl h
  | advance index =>
    rw [Jobs.step, advance] at h
    split at h
    · exact .inl h
    · rename_i call hcall
      obtain ⟨job, entry, stage⟩ := call
      cases stage with
      | inserted =>
        have hcalls : manager.calls ≠ [] := List.ne_nil_of_mem (List.mem_of_getElem? hcall)
        by_cases hid : id = job.jobId
        · have hnow := h
          rw [hid, AList.lookup_insert] at hnow
          cases hnow
          exact .inr ⟨rfl, hcalls⟩
        · rw [AList.lookup_insert_ne hid] at h
          exact .inl h
      | _ => exact .inl h
  | scan =>
    rw [Jobs.step, scan] at h
    split at h <;> exact .inl h
  | collect =>
    rw [Jobs.step, collect] at h
    split at h
    · exact .inl h
    · rename_i key rest hstale
      split at h
      · by_cases hid : id = key
        · rw [hid, AList.lookup_erase] at h
          cases h
        · rw [AList.lookup_erase_ne hid] at h
          exact .inl h
      · exact .inl h
  | wait millis => exact .inl h

def StampedBy (time : Nat) (manager : JobManager Body) : Prop :=
  ∀ id t, manager.jobTimestamps.lookup id = some t → t ≤ time

theorem manager_run (state : State Body) (as : List (Jobs.Action Body)) :
    (run (step crates) state as).manager = run (Jobs.step crates) state.manager as := by
  induction as generalizing state with
  | nil => rfl
  | cons a as ih => exact ih (step crates state a)

theorem stampedBy_now (as : List (Jobs.Action Body)) :
    Always (step crates) (fun state : State Body => StampedBy state.manager.now state.manager)
      (boot Body) as := by
  refine always_of_invariant
    (I := fun state : State Body => StampedBy state.manager.now state.manager) ?_ ?_ as
  · intro id t h
    cases h
  · intro state a h id t ht
    apply le_trans _ (now_step crates state.manager a)
    obtain hold | ⟨hnow, -⟩ := stamp_step crates ht
    · exact h id t hold
    · exact hnow.le

/-- No call is running, and every time in the registry is from before. -/
structure Starved (time : Nat) (manager : JobManager Body) : Prop where
  calls : manager.calls = []
  stamped : StampedBy time manager

/-- Without a new block no call begins. -/
theorem quiet_step {manager : JobManager Body} (h : manager.calls = []) (a : Jobs.Action Body)
    (ha : ∀ block, a ≠ .newBlock block) : (Jobs.step crates manager a).calls = [] := by
  cases a with
  | newBlock block => exact absurd rfl (ha block)
  | advance index =>
    rw [Jobs.step, advance, h]
    exact h
  | scan =>
    rw [Jobs.step, scan]
    split <;> exact h
  | collect =>
    rw [Jobs.step, collect]
    split
    · exact h
    · split <;> exact h
  | wait millis => exact h

theorem Starved.step {time : Nat} {manager : JobManager Body} (h : Starved time manager)
    (a : Jobs.Action Body) (ha : ∀ block, a ≠ .newBlock block) :
    Starved time (Jobs.step crates manager a) := by
  refine ⟨quiet_step crates h.calls a ha, ?_⟩
  intro id t ht
  obtain hold | ⟨-, hcalls⟩ := stamp_step crates ht
  · exact h.stamped id t hold
  · exact absurd h.calls hcalls

theorem starved_run {time : Nat} {manager : JobManager Body} (h : Starved time manager)
    {bs : List (Jobs.Action Body)} (hbs : ∀ a ∈ bs, ∀ block, a ≠ .newBlock block) :
    Starved time (run (Jobs.step crates) manager bs) := by
  induction bs generalizing manager with
  | nil => exact h
  | cons a bs ih =>
    exact ih (h.step crates a (hbs a List.mem_cons_self))
      (fun b hb => hbs b (List.mem_cons_of_mem a hb))

/-- No call is running and no job is active. -/
structure Emptied (manager : JobManager Body) : Prop where
  calls : manager.calls = []
  active : ∀ id, id ∉ manager.activeJobs

/-- A registry that gets no more blocks is empty once a sweep that began more
than 120 seconds after the last of them is over. -/
theorem starved_registry_emptied {as bs : List (Jobs.Action Body)}
    (hfresh : Guarded (step crates) FreshJob (boot Body) as)
    (hbs : ∀ a ∈ bs, ∀ block, a ≠ .newBlock block)
    (hcalls : (run (step crates) (boot Body) as).manager.calls = [])
    (hscan : (run (step crates) (boot Body) as).manager.now + 120 * 1000 <
      (run (step crates) (boot Body) (as ++ bs)).scannedAt)
    (hidle : (run (step crates) (boot Body) (as ++ bs)).manager.sweep.staleKeys = []) :
    Emptied (run (step crates) (boot Body) (as ++ bs)).manager := by
  have hstarved : Starved (run (step crates) (boot Body) as).manager.now
      (run (step crates) (boot Body) (as ++ bs)).manager := by
    have hrest := manager_run crates (run (step crates) (boot Body) as) bs
    rw [run_append, hrest]
    exact starved_run crates ⟨hcalls, (stampedBy_now crates as).last⟩ hbs
  refine ⟨hstarved.calls, ?_⟩
  intro id hactive
  have hall : Guarded (step crates) FreshJob (boot Body) (as ++ bs) := by
    refine (guarded_append _ _ as bs).mpr ⟨hfresh, guarded_of_forall ?_⟩
    intro state a ha
    cases a with
    | newBlock block => exact absurd rfl (hbs _ ha block)
    | _ => trivial
  obtain ⟨call, hcall, -, -⟩ | hstale | ⟨t, -, hstamped, hrecent⟩ :=
    (inv_run crates (as ++ bs) hall).last.excused crates id (.inl hactive)
  · rw [hstarved.calls] at hcall
    cases hcall
  · rw [hidle] at hstale
    cases hstale
  · have hle := hstarved.stamped id t hstamped
    omega

theorem Emptied.step {manager : JobManager Body} (h : Emptied manager) (a : Jobs.Action Body)
    (ha : ∀ block, a ≠ .newBlock block) : Emptied (Jobs.step crates manager a) := by
  refine ⟨quiet_step crates h.calls a ha, ?_⟩
  intro id hactive
  apply h.active id
  cases a with
  | newBlock block => exact absurd rfl (ha block)
  | advance index =>
    rw [Jobs.step, advance, h.calls] at hactive
    exact hactive
  | scan =>
    rw [Jobs.step, scan] at hactive
    split at hactive <;> exact hactive
  | collect =>
    rw [Jobs.step, collect] at hactive
    split at hactive
    · exact hactive
    · split at hactive
      · exact hactive
      · exact (AList.mem_erase.mp hactive).2
  | wait millis => exact hactive

theorem emptied_run {manager : JobManager Body} (h : Emptied manager)
    {bs : List (Jobs.Action Body)} (hbs : ∀ a ∈ bs, ∀ block, a ≠ .newBlock block) :
    Emptied (run (Jobs.step crates) manager bs) := by
  induction bs generalizing manager with
  | nil => exact h
  | cons a bs ih =>
    exact ih (h.step crates a (hbs a List.mem_cons_self))
      (fun b hb => hbs b (List.mem_cons_of_mem a hb))

end Starvation

section Examples

/-- One job that is swept when it is two minutes old. -/
def expiredJob : List (Jobs.Action Unit) × List (Jobs.Action Unit) :=
  ([.newBlock template, .advance 0, .advance 0, .advance 0, .advance 0],
    [.wait 120001, .scan, .collect, .collect])

theorem expired_job_nothing_leaks :
    Always (step tameCrates) NothingLeaks (boot Unit) (expiredJob.1 ++ expiredJob.2) := by
  apply nothing_leaks
  simp only [expiredJob, List.cons_append, List.nil_append, guarded_cons, guarded_nil, FreshJob]
  decide +kernel

theorem expired_job_sweep_ends :
    ∃ pre, pre <+: [Jobs.Action.collect, .wait 1, .collect] ∧
      (run (Jobs.step tameCrates)
        (run (step tameCrates) (boot Unit) (expiredJob.1 ++ expiredJob.2.take 2)).manager
        pre).sweep.staleKeys = [] :=
  sweep_ends tameCrates _ _ (by decide +kernel)

end Examples

end StratumPool.Collector
