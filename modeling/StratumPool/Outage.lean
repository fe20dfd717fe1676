import StratumPool.Collector
import StratumPool.KaspadClient

namespace StratumPool.Outage

open Lib Lib.Runs StratumPool.Text StratumPool.Kaspa StratumPool.KaspadClient
open StratumPool.Jobs (JobManager)
open StratumPool.Submit (judge)
open StratumPool.Server (acceptedShare foundBlock verdictOf submit_cases tameCrates template
  shareParams)
open StratumPool.Collector (FreshJob)

section Jobs

variable {Body : Type} (crates : Crates) (float : Float → Str) (miningAddress : Str)

/-- What a step is to the job manager. -/
def jobsAct (state : State Body) (a : Action Body) : List (Jobs.Action Body) :=
  match relayAct state a with
  | some (.server (.jobs action)) => [action]
  | _ => []

def jobsOver (as : List (Action Body)) : List (Jobs.Action Body) :=
  expand (step crates float miningAddress) jobsAct (boot Body) as

/-- The job manager of a run, with its log and the time of its last scan. -/
def registry (as : List (Action Body)) : Collector.State Body :=
  run (Collector.step crates) (Collector.boot Body) (jobsOver crates float miningAddress as)

/-- The client drives the job manager and adds no step to it. -/
theorem jobs_refines :
    Expands (step crates float miningAddress) (Jobs.step crates)
      (fun state : State Body => state.relay.server.jobs) jobsAct := by
  intro state a
  have hrelay := (outcome_step crates float miningAddress state a).relay
  simp only [hrelay, jobsAct]
  cases relayAct state a with
  | none => rfl
  | some action =>
    rw [Option.elim_some, jobs_of_step]
    cases action with
    | server action => cases action <;> rfl
    | _ => rfl

theorem registry_manager (as : List (Action Body)) :
    (registry crates float miningAddress as).manager =
      (run (step crates float miningAddress) (boot Body) as).relay.server.jobs := by
  rw [registry, Collector.manager_run, (jobs_refines crates float miningAddress).run_eq]
  rfl

end Jobs

section Ended

variable {Body : Type} (crates : Crates) (float : Float → Str) (miningAddress : Str)

theorem stage_send (state : State Body) (request : KaspadRequest Body) :
    (send state request).stage = state.stage := by
  rw [send_eq]

/-- The client does not come back. -/
theorem ended_step {state : State Body} (h : state.stage = .ended) (a : Action Body) :
    (step crates float miningAddress state a).stage = .ended := by
  cases a with
  | relay action =>
    cases action with
    | deliver =>
      simp only [step, deliver]
      cases state.relay.hand with
      | none => exact h
      | some block => rw [Option.elim_some, stage_send, h]
    | server action =>
      cases action with
      | jobs action => cases action <;> exact h
      | _ => exact h
    | _ => exact h
  | notify => simp [step, h]
  | ask redisOk => simp [step, h]
  | message response redisOk => simp [step, h]
  | setAddress address => exact h
  | hangUp => rfl

/-- Without the node there is no new job. -/
theorem ended_jobs {state : State Body} (h : state.stage = .ended) (a : Action Body) :
    ∀ action ∈ jobsAct state a, ∀ block, action ≠ .newBlock block := by
  rintro action haction block rfl
  rw [jobsAct] at haction
  split at haction
  · rename_i found hact
    rw [← List.mem_singleton.mp haction] at hact
    have hproposed := relayAct_newBlock hact
    cases a with
    | message response redisOk =>
      cases response with
      | getBlockTemplate proposed => cases proposed <;> simp [proposedBy, h] at hproposed
      | _ => cases hproposed
    | _ => cases hproposed
  · cases haction

theorem ended_run {state : State Body} (h : state.stage = .ended) (bs : List (Action Body)) :
    (run (step crates float miningAddress) state bs).stage = .ended ∧
      ∀ action ∈ expand (step crates float miningAddress) jobsAct state bs,
        ∀ block, action ≠ .newBlock block := by
  induction bs generalizing state with
  | nil => exact ⟨h, by simp [expand]⟩
  | cons a bs ih =>
    obtain ⟨hstage, hjobs⟩ := ih (ended_step crates float miningAddress h a)
    refine ⟨hstage, ?_⟩
    rw [expand]
    exact List.forall_mem_append.mpr ⟨ended_jobs h a, hjobs⟩

end Ended

section Refusal

variable {Body : Type} (crates : Crates) (float : Float → Str) (miningAddress : Str)

/-- Where no job is active every submission is stale. -/
theorem refused_of_empty {server : Server.State Body} (h : ∀ id, id ∉ server.jobs.activeJobs)
    (a : Server.Action Body) :
    acceptedShare crates float server a = none ∧ foundBlock crates float server a = none := by
  have hstale : ∀ conn submission verdict,
      verdictOf crates float server a = some (conn, submission, verdict) → verdict = .stale := by
    intro conn submission verdict hv
    cases a with
    | submit index params =>
      obtain ⟨hnone, -⟩ | ⟨conn', submission', -, hsome, -⟩ :=
        submit_cases crates float server index params
      · rw [hnone] at hv
        cases hv
      · rw [hsome] at hv
        cases hv
        rw [judge, AList.lookup_eq_none.mpr (h _)]
    | _ => cases hv
  rw [acceptedShare, foundBlock]
  constructor
  · split
    · rename_i conn submission header hv
      cases hstale _ _ _ hv
    · rfl
  · split
    · rename_i conn submission header rpcBlock hv
      cases hstale _ _ _ hv
    · rfl

/-- After the node's stream has ended the pool credits no share and finds no
block any more, once a sweep is over that began 120 seconds later. The miners
stay connected and are told that their jobs are stale. -/
theorem lost_node_refuses {as bs : List (Action Body)}
    (hfresh : Guarded (Collector.step crates) FreshJob (Collector.boot Body)
      (jobsOver crates float miningAddress as))
    (hended : (run (step crates float miningAddress) (boot Body) as).stage = .ended)
    (hcalls : (run (step crates float miningAddress) (boot Body) as).relay.server.jobs.calls = [])
    (hscan : (registry crates float miningAddress as).manager.now + 120 * 1000 <
      (registry crates float miningAddress (as ++ bs)).scannedAt)
    (hidle : (registry crates float miningAddress (as ++ bs)).manager.sweep.staleKeys = [])
    (cs : List (Action Body)) (a : Server.Action Body) :
    let server := (run (step crates float miningAddress) (boot Body) (as ++ bs ++ cs)).relay.server
    acceptedShare crates float server a = none ∧ foundBlock crates float server a = none := by
  intro server
  apply refused_of_empty
  obtain ⟨hstage, hbs⟩ := ended_run crates float miningAddress hended bs
  rw [← run_append] at hstage
  obtain ⟨-, hcs⟩ := ended_run crates float miningAddress hstage cs
  have hregistry := registry_manager crates float miningAddress (as ++ bs)
  have hsplit : registry crates float miningAddress (as ++ bs) =
      run (Collector.step crates) (Collector.boot Body)
        (jobsOver crates float miningAddress as ++
          expand (step crates float miningAddress) jobsAct
            (run (step crates float miningAddress) (boot Body) as) bs) := by
    rw [registry, jobsOver, expand_append]
    rfl
  have hemptied : Collector.Emptied (registry crates float miningAddress (as ++ bs)).manager := by
    rw [hsplit] at hscan hidle ⊢
    refine Collector.starved_registry_emptied crates hfresh hbs ?_ hscan hidle
    exact (congrArg JobManager.calls (registry_manager crates float miningAddress as)).trans hcalls
  have hjobs := (jobs_refines crates float miningAddress).run_eq
    (run (step crates float miningAddress) (boot Body) (as ++ bs)) cs
  rw [← run_append] at hjobs
  intro id
  rw [hjobs]
  rw [hregistry] at hemptied
  exact (Collector.emptied_run crates hemptied hcs).active id

end Refusal

section Examples

/-- One job is posted, and then the node is gone. -/
def lostNode : List (Action Unit) :=
  [.notify, .ask true, .relay (.server (.connect 1 1)),
    .message (.getBlockTemplate (some template)) true, .relay (.server (.jobs (.advance 0))),
    .relay (.server (.jobs (.advance 0))), .relay (.server (.jobs (.advance 0))),
    .relay (.server (.jobs (.advance 0))), .hangUp]

/-- The sweep of two minutes later. -/
def lastSweep : List (Action Unit) :=
  [.relay (.server (.jobs (.wait 120001))), .relay (.server (.jobs .scan)),
    .relay (.server (.jobs .collect)), .relay (.server (.jobs .collect))]

theorem lost_node_refuses_share :
    let server := (run (step tameCrates (fun _ => []) []) (boot Unit)
      (lostNode ++ lastSweep ++ [])).relay.server
    acceptedShare tameCrates (fun _ => []) server (.submit 0 (shareParams (lit "7"))) = none ∧
      foundBlock tameCrates (fun _ => []) server (.submit 0 (shareParams (lit "7"))) = none := by
  apply lost_node_refuses
  · have hjobs : jobsOver tameCrates (fun _ => []) [] lostNode =
        [.newBlock template, .advance 0, .advance 0, .advance 0, .advance 0] := rfl
    rw [hjobs]
    simp only [guarded_cons, guarded_nil, FreshJob]
    decide +kernel
  · rfl
  · rfl
  · decide +kernel
  · rfl

/-- Before that sweep the share is still accepted. -/
example : (acceptedShare tameCrates (fun _ => [])
    (run (step tameCrates (fun _ => []) []) (boot Unit) lostNode).relay.server
    (.submit 0 (shareParams (lit "7")))).isSome = true := by decide +kernel

end Examples

end StratumPool.Outage
