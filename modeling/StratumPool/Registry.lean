import StratumPool.Lib.Collected
import StratumPool.Server

namespace StratumPool.Registry

open Lib Lib.Runs StratumPool.Text StratumPool.Kaspa StratumPool.Jobs

/-- A job that has its time, with the header and the block it was built from. -/
structure Posted (Body : Type) where
  job : StratumJob
  entry : JobEntry Body
  stampedAt : Nat

/-- The jobs that no sweep has seen older than 120 seconds yet, and those that
one has seen so old. -/
structure Log (Body : Type) where
  young : List (Posted Body)
  seen : List (Posted Body)

structure State (Body : Type) where
  server : Server.State Body
  log : Log Body

def boot (Body : Type) : State Body := ⟨Server.boot Body, ⟨[], []⟩⟩

section Steps

variable {Body : Type} (crates : Crates) (float : Float → Str)

def isOld (now stampedAt : Nat) : Bool := 120 * 1000 < now - stampedAt

/-- A job is young from the write of its time to the scan that finds it old. -/
def follow (manager : JobManager Body) (log : Log Body) : Jobs.Action Body → Log Body
  | .advance index =>
      match manager.calls[index]? with
      | some ⟨job, entry, .inserted⟩ =>
          { log with young := log.young ++ [⟨job, entry, manager.now⟩] }
      | _ => log
  | .scan =>
      if manager.sweep.staleKeys.isEmpty then
        { young := log.young.filter (fun e => !isOld manager.now e.stampedAt)
          seen := log.seen ++ log.young.filter (fun e => isOld manager.now e.stampedAt) }
      else log
  | _ => log

def step (state : State Body) (a : Server.Action Body) : State Body :=
  { server := Server.step crates float state.server a
    log :=
      match a with
      | .jobs action => follow state.server.jobs state.log action
      | _ => state.log }

/-- The id is held by a job that is in one of the maps or on its way there, or
that a sweep is removing. -/
def Taken (manager : JobManager Body) (id : Str) : Prop :=
  id ∈ manager.activeJobs ∨ id ∈ manager.jobTimestamps ∨ id ∈ manager.sweep.staleKeys ∨
    ∃ call ∈ manager.calls, call.stage = .converted ∧ call.job.jobId = id

instance (manager : JobManager Body) (id : Str) : Decidable (Taken manager id) :=
  inferInstanceAs (Decidable (_ ∨ _ ∨ _ ∨ _))

/-- A block that needs an id does not get one that is taken. -/
def FreshId (state : State Body) : Server.Action Body → Prop
  | .jobs (.newBlock block) =>
      block.header.isSome → ¬ Taken state.server.jobs (lowHex state.server.jobs.jobCounter)
  | _ => True

/-- What the miners are told of a job is what its header and its block say. -/
def Built (job : StratumJob) (entry : JobEntry Body) : Prop :=
  ∃ rpcHeader, entry.2.header = some rpcHeader ∧ consensusHeader crates rpcHeader = some entry.1 ∧
    job.payload = notifyPayload crates job.jobId entry.1 rpcHeader.timestamp.toUInt64

def isPosted : Stage → Bool
  | .stamped | .cached => true
  | _ => false

/-- The jobs that are broadcast, that are in the cache or that come there next. -/
def posted (manager : JobManager Body) : List StratumJob :=
  manager.jobTx ++ (manager.calls.filter (fun call => isPosted call.stage)).map Call.job

end Steps

section Kept

variable {Body : Type} (crates : Crates) (float : Float → Str)

def maps (manager : JobManager Body) : Collected.Maps Str (JobEntry Body) Nat :=
  ⟨manager.activeJobs, manager.jobTimestamps, manager.sweep.staleKeys, manager.sweep.activeRemoved⟩

/-- What a running call has entered. From its stamp on the job is followed as a
posted one. -/
def rowOf (call : Call Body) : Option (Collected.Row Str (JobEntry Body) Nat) :=
  match call.stage with
  | .converted => some ⟨call.job.jobId, none, none⟩
  | .inserted => some ⟨call.job.jobId, some call.entry, none⟩
  | .stamped | .cached => none

def Posted.row (e : Posted Body) : Collected.Row Str (JobEntry Body) Nat :=
  ⟨e.job.jobId, some e.entry, some e.stampedAt⟩

def rows (calls : List (Call Body)) (young : List (Posted Body)) :
    List (Collected.Row Str (JobEntry Body) Nat) :=
  calls.filterMap rowOf ++ young.map Posted.row

/-- What the registry and the calls keep between any two of their writes. -/
structure Kept (manager : JobManager Body) (log : Log Body) : Prop where
  holds : Collected.Holds (rows manager.calls log.young) (maps manager)
  accounted : (posted manager).Perm ((log.young ++ log.seen).map Posted.job)
  called : ∀ call ∈ manager.calls, Built crates call.job call.entry
  built : ∀ e ∈ log.young, Built crates e.job e.entry
  cached : ∀ payload ∈ manager.cachedJob, ∃ job ∈ posted manager, job.payload = payload
  old : ∀ e ∈ log.seen, isOld manager.now e.stampedAt = true

theorem kept_new : Kept crates (Jobs.new Body) ⟨[], []⟩ where
  holds := Collected.holds_empty
  accounted := List.Perm.refl _
  called := by simp [Jobs.new]
  built := by simp
  cached := by simp [Jobs.new]
  old := by simp

/-- One call among the others, which a write of it replaces or removes. -/
theorem split_calls {α : Type} {calls : List α} {index : Nat} {call : α}
    (h : calls[index]? = some call) :
    ∃ before after, calls = before ++ call :: after ∧
      (∀ call', calls.set index call' = before ++ call' :: after) ∧
      calls.eraseIdx index = before ++ after := by
  obtain ⟨hlt, hget⟩ := List.getElem?_eq_some_iff.mp h
  refine ⟨calls.take index, calls.drop (index + 1), ?_, ?_, List.eraseIdx_eq_take_drop_succ _ _⟩
  · rw [← hget, ← List.drop_eq_getElem_cons hlt, List.take_append_drop]
  · intro call'
    rw [List.set_eq_take_append_cons_drop, if_pos hlt]

theorem rows_call (before after : List (Call Body)) (call : Call Body)
    (young : List (Posted Body)) :
    (rows (before ++ call :: after) young).Perm
      ((rowOf call).toList ++ rows (before ++ after) young) := by
  rw [rows, rows, List.filterMap_append, List.filterMap_append, List.append_assoc,
    List.append_assoc]
  cases hrow : rowOf call with
  | none => simp [hrow]
  | some r =>
    simp only [List.filterMap_cons, hrow, Option.toList_some]
    exact List.perm_middle

theorem posted_call {before after : List (Call Body)} (jobTx : List StratumJob) (call : Call Body)
    (h : isPosted call.stage = true) :
    (jobTx ++ ((before ++ call :: after).filter (fun c => isPosted c.stage)).map Call.job).Perm
      (call.job ::
        (jobTx ++ ((before ++ after).filter (fun c => isPosted c.stage)).map Call.job)) := by
  simp only [List.filter_append, List.filter_cons, h, if_true, List.map_append, List.map_cons]
  exact (List.perm_middle.append_left jobTx).trans List.perm_middle

section Writes

variable {manager : JobManager Body} {log : Log Body} {before after : List (Call Body)}
  {job : StratumJob} {entry : JobEntry Body} {stage : Stage}

theorem Kept.row (h : Kept crates manager log)
    (hcalls : manager.calls = before ++ ⟨job, entry, stage⟩ :: after) :
    Collected.Holds ((rowOf ⟨job, entry, stage⟩).toList ++ rows (before ++ after) log.young)
      (maps manager) := by
  have hholds := h.holds
  rw [hcalls] at hholds
  exact hholds.perm (rows_call before after ⟨job, entry, stage⟩ log.young)

/-- A call goes on with the job it has. -/
theorem Kept.called_next (h : Kept crates manager log)
    (hcalls : manager.calls = before ++ ⟨job, entry, stage⟩ :: after) (next : Stage) :
    ∀ call ∈ before ++ ⟨job, entry, next⟩ :: after, Built crates call.job call.entry := by
  have hcalled := h.called
  rw [hcalls] at hcalled
  intro call hmem
  obtain hb | hmem := List.mem_append.mp hmem
  · exact hcalled call (List.mem_append_left _ hb)
  · obtain rfl | ha := List.mem_cons.mp hmem
    · exact hcalled ⟨job, entry, stage⟩ (by simp)
    · exact hcalled call (by simp [ha])

theorem Kept.enter (h : Kept crates manager log)
    (hcalls : manager.calls = before ++ ⟨job, entry, .converted⟩ :: after) :
    Kept crates
      { manager with
        activeJobs := manager.activeJobs.insert job.jobId entry
        calls := before ++ ⟨job, entry, .inserted⟩ :: after } log := by
  have hposted : posted { manager with
      activeJobs := manager.activeJobs.insert job.jobId entry
      calls := before ++ ⟨job, entry, .inserted⟩ :: after } = posted manager := by
    simp [posted, hcalls, isPosted]
  refine ⟨?_, ?_, h.called_next crates hcalls _, h.built, ?_, h.old⟩
  · exact ((h.row crates hcalls).write entry).perm
      (rows_call before after ⟨job, entry, .inserted⟩ log.young).symm
  · rw [hposted]
    exact h.accounted
  · rw [hposted]
    exact h.cached

theorem Kept.stamp (h : Kept crates manager log)
    (hcalls : manager.calls = before ++ ⟨job, entry, .inserted⟩ :: after) :
    Kept crates
      { manager with
        jobTimestamps := manager.jobTimestamps.insert job.jobId manager.now
        calls := before ++ ⟨job, entry, .stamped⟩ :: after }
      { log with young := log.young ++ [⟨job, entry, manager.now⟩] } := by
  have hposted : (posted { manager with
      jobTimestamps := manager.jobTimestamps.insert job.jobId manager.now
      calls := before ++ ⟨job, entry, .stamped⟩ :: after }).Perm (job :: posted manager) := by
    have hbefore : posted manager =
        manager.jobTx ++ ((before ++ after).filter (fun c => isPosted c.stage)).map Call.job := by
      simp [posted, hcalls, isPosted]
    rw [hbefore]
    exact posted_call manager.jobTx ⟨job, entry, .stamped⟩ rfl
  refine ⟨?_, ?_, h.called_next crates hcalls _, ?_, ?_, h.old⟩
  · apply ((h.row crates hcalls).mark manager.now).perm
    have hrows : rows (before ++ ⟨job, entry, .stamped⟩ :: after)
        (log.young ++ [⟨job, entry, manager.now⟩]) =
        rows (before ++ after) log.young ++ [Posted.row ⟨job, entry, manager.now⟩] := by
      rw [rows, rows, List.filterMap_append, List.filterMap_append, List.filterMap_cons_none rfl,
        List.map_append, List.append_assoc, List.append_assoc, List.append_assoc]
      rfl
    rw [hrows]
    exact (List.perm_append_singleton _ _).symm
  · have hyoung (e : Posted Body) :
        (log.young ++ [e] ++ log.seen).Perm (e :: (log.young ++ log.seen)) := by
      rw [List.append_assoc]
      exact List.perm_middle
    exact (hposted.trans (h.accounted.cons job)).trans 
      ((hyoung ⟨job, entry, manager.now⟩).map Posted.job).symm
  · intro e he
    obtain he | he := List.mem_append.mp he
    · exact h.built e he
    · obtain rfl := List.mem_singleton.mp he
      exact h.called ⟨job, entry, .inserted⟩ (by simp [hcalls])
  · intro payload hpayload
    obtain ⟨posted, hmem, hp⟩ := h.cached payload hpayload
    exact ⟨posted, hposted.mem_iff.mpr (List.mem_cons_of_mem _ hmem), hp⟩

theorem Kept.cache (h : Kept crates manager log)
    (hcalls : manager.calls = before ++ ⟨job, entry, .stamped⟩ :: after) :
    Kept crates
      { manager with
        cachedJob := some job.payload
        calls := before ++ ⟨job, entry, .cached⟩ :: after } log := by
  have hposted : posted { manager with
      cachedJob := some job.payload
      calls := before ++ ⟨job, entry, .cached⟩ :: after } = posted manager := by
    simp [posted, hcalls, isPosted]
  refine ⟨?_, ?_, h.called_next crates hcalls _, h.built, ?_, h.old⟩
  · exact (h.row crates hcalls).perm
      (rows_call before after ⟨job, entry, .cached⟩ log.young).symm
  · rw [hposted]
    exact h.accounted
  · rw [hposted]
    intro payload hpayload
    cases hpayload
    exact ⟨job, by simp [posted, hcalls, isPosted], rfl⟩

theorem Kept.broadcast (h : Kept crates manager log)
    (hcalls : manager.calls = before ++ ⟨job, entry, .cached⟩ :: after) :
    Kept crates { manager with jobTx := manager.jobTx ++ [job], calls := before ++ after } log := by
  have hposted : (posted { manager with
      jobTx := manager.jobTx ++ [job], calls := before ++ after }).Perm (posted manager) := by
    rw [posted, posted, hcalls]
    apply List.Perm.trans _ (posted_call manager.jobTx ⟨job, entry, .cached⟩ rfl).symm
    rw [List.append_assoc]
    exact List.perm_middle
  refine ⟨h.row crates hcalls, hposted.trans h.accounted, ?_, h.built, ?_, h.old⟩
  · intro call hmem
    apply h.called
    rw [hcalls]
    exact List.mem_append.mpr ((List.mem_append.mp hmem).imp_right (List.mem_cons_of_mem _))
  · intro payload hpayload
    obtain ⟨posted, hmem, hp⟩ := h.cached payload hpayload
    exact ⟨posted, hposted.mem_iff.mpr hmem, hp⟩

end Writes

theorem kept_advance {manager : JobManager Body} {log : Log Body} (h : Kept crates manager log)
    (index : Nat) :
    Kept crates (advance manager index) (follow manager log (.advance index)) := by
  rw [advance, follow]
  cases hcall : manager.calls[index]? with
  | none => exact h
  | some call =>
    obtain ⟨before, after, hcalls, hset, herase⟩ := split_calls hcall
    obtain ⟨job, entry, stage⟩ := call
    cases stage with
    | converted =>
      simp only [hset]
      exact h.enter crates hcalls
    | inserted =>
      simp only [hset]
      exact h.stamp crates hcalls
    | stamped =>
      simp only [hset]
      exact h.cache crates hcalls
    | cached =>
      simp only [herase]
      exact h.broadcast crates hcalls

/-- The id of a job that is followed is taken. -/
theorem taken_of_row {manager : JobManager Body} {log : Log Body} (h : Kept crates manager log)
    {id : Str} (hid : id ∈ (rows manager.calls log.young).map Collected.Row.key) :
    Taken manager id := by
  obtain ⟨r, hr, rfl⟩ := List.mem_map.mp hid
  have hvalue : r.value.isSome → Taken manager r.key := by
    intro hsome
    rw [← h.holds.value r hr] at hsome
    exact .inl (AList.lookup_isSome.mp hsome)
  obtain hcall | hyoung := List.mem_append.mp hr
  · obtain ⟨⟨job, entry, stage⟩, hmem, hrow⟩ := List.mem_filterMap.mp hcall
    cases stage with
    | converted =>
      obtain rfl := Option.some.inj hrow
      exact .inr (.inr (.inr ⟨_, hmem, rfl, rfl⟩))
    | inserted =>
      obtain rfl := Option.some.inj hrow
      exact hvalue rfl
    | stamped => cases hrow
    | cached => cases hrow
  · obtain ⟨e, _, rfl⟩ := List.mem_map.mp hyoung
    exact hvalue rfl

theorem kept_newBlock {manager : JobManager Body} {log : Log Body} (h : Kept crates manager log)
    {block : RpcBlock Body}
    (hfresh : block.header.isSome → ¬ Taken manager (lowHex manager.jobCounter)) :
    Kept crates (newBlock crates manager block) log := by
  rw [newBlock]
  cases hheader : block.header with
  | none => exact h
  | some rpcHeader =>
    have hnot := hfresh (by rw [hheader]; rfl)
    simp only
    cases hconverted : consensusHeader crates rpcHeader with
    | none => exact h
    | some header =>
      have hposted : posted { manager with
          jobCounter := manager.jobCounter + 1
          calls := manager.calls ++ [⟨⟨lowHex manager.jobCounter, notifyPayload crates
            (lowHex manager.jobCounter) header rpcHeader.timestamp.toUInt64⟩,
            (header, block), .converted⟩] } = posted manager := by
        simp [posted, isPosted]
      refine ⟨?_, ?_, ?_, h.built, ?_, h.old⟩
      · apply (h.holds.add (k := lowHex manager.jobCounter) ?_ ?_ ?_ ?_).perm
        · rw [rows, rows, List.filterMap_append, List.append_assoc]
          exact List.perm_middle.symm
        · exact fun hrow => hnot (taken_of_row crates h hrow)
        · exact fun hmem => hnot (.inl hmem)
        · exact fun hmem => hnot (.inr (.inl hmem))
        · exact fun hmem => hnot (.inr (.inr (.inl hmem)))
      · rw [hposted]
        exact h.accounted
      · intro call hmem
        obtain hmem | hmem := List.mem_append.mp hmem
        · exact h.called call hmem
        · obtain rfl := List.mem_singleton.mp hmem
          exact ⟨rpcHeader, hheader, hconverted, rfl⟩
      · rw [hposted]
        exact h.cached

theorem rows_young (calls : List (Call Body)) (young : List (Posted Body)) (old : Nat → Bool) :
    (rows calls young).filter (fun r => !r.stamp.any old) =
      rows calls (young.filter (fun e => !old e.stampedAt)) := by
  have hcalls : (calls.filterMap rowOf).filter (fun r => !r.stamp.any old) =
      calls.filterMap rowOf := by
    apply List.filter_eq_self.mpr
    intro r hr
    obtain ⟨call, _, hrow⟩ := List.mem_filterMap.mp hr
    rw [rowOf] at hrow
    split at hrow <;> cases hrow <;> rfl
  rw [rows, rows, List.filter_append, hcalls, List.filter_map]
  rfl

theorem kept_scan {manager : JobManager Body} {log : Log Body} (h : Kept crates manager log) :
    Kept crates (scan manager) (follow manager log .scan) := by
  rw [scan, follow]
  cases hidle : manager.sweep.staleKeys.isEmpty with
  | false => exact h
  | true =>
    simp only [if_true]
    refine ⟨?_, ?_, h.called, ?_, h.cached, ?_⟩
    · have hswept := h.holds.sweep (List.isEmpty_iff.mp hidle) (isOld manager.now)
      rw [rows_young] at hswept
      exact hswept
    · apply h.accounted.trans (List.Perm.map _ _)
      have hsplit := List.filter_append_perm (fun e => isOld manager.now e.stampedAt) log.young
      apply (hsplit.symm.append_right log.seen).trans
      rw [List.append_assoc]
      apply List.perm_append_comm.trans
      rw [List.append_assoc]
    · intro e he
      exact h.built e (List.mem_of_mem_filter he)
    · intro e he
      obtain he | he := List.mem_append.mp he
      · exact h.old e he
      · exact (List.mem_filter.mp he).2

theorem kept_collect {manager : JobManager Body} {log : Log Body} (h : Kept crates manager log) :
    Kept crates (collect manager) log := by
  obtain ⟨now, jobCounter, activeJobs, jobTimestamps, cachedJob, jobTx, calls, ⟨stale, removed⟩⟩ :=
    manager
  cases stale with
  | nil => exact h
  | cons key rest =>
    cases removed with
    | false => exact ⟨h.holds.collect, h.accounted, h.called, h.built, h.cached, h.old⟩
    | true => exact ⟨h.holds.collect, h.accounted, h.called, h.built, h.cached, h.old⟩

theorem kept_wait {manager : JobManager Body} {log : Log Body} (h : Kept crates manager log)
    (millis : Nat) : Kept crates { manager with now := manager.now + millis } log := by
  refine ⟨h.holds, h.accounted, h.called, h.built, h.cached, ?_⟩
  intro e he
  have hold := h.old e he
  simp only [isOld, decide_eq_true_eq] at hold ⊢
  omega

theorem kept_step {state : State Body} (h : Kept crates state.server.jobs state.log)
    (a : Server.Action Body) (hg : FreshId state a) :
    Kept crates (step crates float state a).server.jobs (step crates float state a).log := by
  simp only [step, (Server.step_outcome crates float state.server a).jobs]
  cases a with
  | jobs action =>
    cases action with
    | newBlock block => exact kept_newBlock crates h hg
    | advance index => exact kept_advance crates h index
    | scan => exact kept_scan crates h
    | collect => exact kept_collect crates h
    | wait millis => exact kept_wait crates h millis
  | connect connId currentDiff => exact h
  | disconnect index => exact h
  | retarget index newDiff => exact h
  | submit index params => exact h
  | receiveShare => exact h
  | closeShares => exact h
  | forwardBlock => exact h

/-- The registry at one point of a run: every job that was cached or broadcast
is followed, the young ones can be looked up, and at rest the two maps have the
same keys. -/
structure Registered (state : State Body) : Prop where
  accounted : (posted state.server.jobs).Perm ((state.log.young ++ state.log.seen).map Posted.job)
  cached : ∀ payload ∈ state.server.jobs.cachedJob, ∃ job ∈ posted state.server.jobs,
    job.payload = payload
  found : ∀ e ∈ state.log.young,
    state.server.jobs.activeJobs.lookup e.job.jobId = some e.entry ∧ Built crates e.job e.entry
  old : ∀ e ∈ state.log.seen, isOld state.server.jobs.now e.stampedAt = true
  sameKeys : state.server.jobs.calls = [] → state.server.jobs.sweep.staleKeys = [] →
    ∀ id, id ∈ state.server.jobs.activeJobs ↔ id ∈ state.server.jobs.jobTimestamps

theorem Kept.registered {state : State Body} (h : Kept crates state.server.jobs state.log) :
    Registered crates state where
  accounted := h.accounted
  cached := h.cached
  found := by
    intro e he
    have hrow : e.row ∈ rows state.server.jobs.calls state.log.young :=
      List.mem_append_right _ (List.mem_map_of_mem he)
    exact ⟨h.holds.value e.row hrow, h.built e he⟩
  old := h.old
  sameKeys := by
    intro hcalls hidle
    apply h.holds.same_keys hidle
    intro r hr
    rw [hcalls, rows, List.filterMap_nil, List.nil_append] at hr
    obtain ⟨e, _, rfl⟩ := List.mem_map.mp hr
    exact ⟨rfl, rfl⟩

/-- Where no id is given out while a job still holds it, a job can be looked up
from the time it is published until a sweep has seen it older than 120 seconds. -/
theorem published_jobs_found (as : List (Server.Action Body))
    (hfresh : Guarded (step crates float) FreshId (boot Body) as) :
    Always (step crates float) (Registered crates) (boot Body) as :=
  always_mono (fun _ h => h.registered crates)
    (hfresh.always (I := fun state => Kept crates state.server.jobs state.log) (kept_new crates)
      (fun _ a h hg => kept_step crates float h a hg))

end Kept

section Examples

open StratumPool.Server (tameCrates template shareParams)

/-- A job is published, mined on and swept before the next one comes. -/
def oneJobSwept : List (Server.Action Unit) :=
  [.jobs (.newBlock template), .jobs (.advance 0), .jobs (.advance 0), .jobs (.advance 0),
    .jobs (.advance 0), .connect 1 1, .submit 0 (shareParams (lit "7")), .jobs (.wait 121000),
    .jobs .scan, .jobs .collect, .jobs .collect, .jobs (.newBlock template)]

theorem published_jobs_found_swept :
    Always (step tameCrates (fun _ => [])) (Registered tameCrates) (boot Unit) oneJobSwept := by
  apply published_jobs_found
  simp only [oneJobSwept, guarded_cons, guarded_nil, FreshId]
  decide +kernel

end Examples

end StratumPool.Registry
