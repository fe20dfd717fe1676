import StratumPool.Lib.Channel
import StratumPool.Lib.Runs
import StratumPool.Server

namespace StratumPool.Feed

open Lib Lib.Runs StratumPool.Text StratumPool.Kaspa StratumPool.Jobs
open StratumPool.Server (tameCrates template)

/-- How far a connection has come: accepted, in its handshake, between the read
of the cached job and its write, in the loop. -/
inductive Phase where
  | accepted | handshake | greeting | serving
  deriving DecidableEq

/-- The job manager and the jobs of one connection. Payloads carry the number
of their job, counted in the order of creation. `next` is the position of the
broadcast receiver, `initial` the job read from the cache, `written` what the
socket got. `taken` lists the blocks that a call of `process_new_block` has made
a job of, the running call's included. -/
structure State (Body : Type) where
  jobs : JobManager Body
  taken : List (RpcBlock Body)
  phase : Phase
  next : Nat
  initial : Option (Nat × Str)
  pending : Option (Nat × Str)
  written : List (Nat × Str)

def boot (Body : Type) : State Body := ⟨Jobs.new Body, [], .accepted, 0, none, none, []⟩

inductive Action (Body : Type) where
  | produce (action : Jobs.Action Body)
  | subscribe
  | readCache
  | writeCached
  | receive
  | tick

section Steps

variable {Body : Type} (crates : Crates)

def isCached : Stage → Bool
  | .cached => true
  | _ => false

/-- The jobs in the order of their creation, as far as one has come to the
cache. -/
def created (manager : JobManager Body) : List StratumJob :=
  manager.jobTx ++ (manager.calls.filter (fun call => isCached call.stage)).map Call.job

/-- The node's messages are handled by one task, so a call begins when the one
before it has returned. -/
def produce (manager : JobManager Body) : Jobs.Action Body → JobManager Body
  | .newBlock block => if manager.calls.isEmpty then newBlock crates manager block else manager
  | action => Jobs.step crates manager action

/-- What the miners are told of the `n`th block that has a header. Where a field
of it does not convert the process ends. -/
def announcement (n : Nat) (block : RpcBlock Body) : Option Str := do
  let rpcHeader ← block.header
  let header ← consensusHeader crates rpcHeader
  return notifyPayload crates (lowHex (UInt64.ofNat n)) header rpcHeader.timestamp.toUInt64

def take (manager : JobManager Body) (taken : List (RpcBlock Body)) :
    Jobs.Action Body → List (RpcBlock Body)
  | .newBlock block =>
      if manager.calls.isEmpty ∧ (block.header.bind (consensusHeader crates)).isSome then
        taken ++ [block]
      else taken
  | _ => taken

/-- The blocks whose calls have returned. -/
def processed (state : State Body) : List (RpcBlock Body) :=
  if state.jobs.calls.isEmpty then state.taken else state.taken.dropLast

def readCache (manager : JobManager Body) : Option (Nat × Str) :=
  manager.cachedJob.map (fun payload => ((created manager).length - 1, payload))

/-- The `job_rx.recv()` arm. A receiver that lags gets an error, for which the
arm does not run. -/
def receive (state : State Body) : State Body :=
  match Broadcast.recv 1024 state.jobs.jobTx state.next with
  | (next, none) => { state with next }
  | (next, some job) => { state with next, pending := some (state.next, job.payload) }

def step (state : State Body) : Action Body → State Body
  | .produce action =>
      { state with
        jobs := produce crates state.jobs action
        taken := take crates state.jobs state.taken action }
  | .subscribe =>
      if state.phase = .accepted then
        { state with phase := .handshake, next := state.jobs.jobTx.length }
      else state
  | .readCache =>
      if state.phase = .handshake then
        { state with phase := .greeting, initial := readCache state.jobs }
      else state
  | .writeCached =>
      if state.phase = .greeting then
        { state with phase := .serving, written := state.written ++ state.initial.toList }
      else state
  | .receive => if state.phase = .serving then receive state else state
  | .tick =>
      if state.phase = .serving then
        { state with written := state.written ++ state.pending.toList, pending := none }
      else state

end Steps

section Producer

variable {Body : Type} (crates : Crates)

/-- One call at a time, and the cache holds the newest job that came to it. -/
structure Sequential (manager : JobManager Body) : Prop where
  single : manager.calls = [] ∨ ∃ call, manager.calls = [call]
  cache : manager.cachedJob = (created manager).getLast?.map StratumJob.payload

theorem sequential_new : Sequential (Jobs.new Body) := ⟨.inl rfl, rfl⟩

theorem created_idle {manager : JobManager Body}
    (h : ∀ call ∈ manager.calls, isCached call.stage = false) :
    created manager = manager.jobTx := by
  rw [created, List.filter_eq_nil_iff.mpr (by simpa using h), List.map_nil, List.append_nil]

/-- What a step of the producer does: the jobs created grow, at most one is
broadcast, and the cache has the newest. -/
structure Produced (manager after : JobManager Body) : Prop where
  sequential : Sequential after
  grows : created manager <+: created after
  broadcast : manager.jobTx <+: after.jobTx

theorem produced_same {manager after : JobManager Body} (h : Sequential manager)
    (hcalls : after.calls = manager.calls) (htx : after.jobTx = manager.jobTx)
    (hcache : after.cachedJob = manager.cachedJob) : Produced manager after := by
  have hcreated : created after = created manager := by rw [created, created, hcalls, htx]
  refine ⟨⟨?_, ?_⟩, ?_, ?_⟩
  · rw [hcalls]
    exact h.single
  · rw [hcache, hcreated]
    exact h.cache
  · rw [hcreated]
  · rw [htx]

/-- The four writes of a call: only the third touches the cache, and the last
one broadcasts the job that is in it. -/
theorem produced_advance {manager : JobManager Body} (h : Sequential manager) (index : Nat) :
    Produced manager (advance manager index) := by
  obtain hnone | ⟨call, hone⟩ := h.single
  · have hstop : advance manager index = manager := by simp [advance, hnone]
    rw [hstop]
    exact produced_same h rfl rfl rfl
  · cases index with
    | succ n =>
      have hstop : advance manager (n + 1) = manager := by simp [advance, hone]
      rw [hstop]
      exact produced_same h rfl rfl rfl
    | zero =>
      obtain ⟨job, entry, stage⟩ := call
      have hcache := h.cache
      cases stage with
      | converted =>
        simp only [advance, hone, List.getElem?_cons_zero, List.set_cons_zero]
        refine ⟨⟨.inr ⟨_, rfl⟩, ?_⟩, ?_, List.prefix_rfl⟩
        · simpa [created, hone, isCached] using hcache
        · simp [created, hone, isCached]
      | inserted =>
        simp only [advance, hone, List.getElem?_cons_zero, List.set_cons_zero]
        refine ⟨⟨.inr ⟨_, rfl⟩, ?_⟩, ?_, List.prefix_rfl⟩
        · simpa [created, hone, isCached] using hcache
        · simp [created, hone, isCached]
      | stamped =>
        simp only [advance, hone, List.getElem?_cons_zero, List.set_cons_zero]
        refine ⟨⟨.inr ⟨_, rfl⟩, ?_⟩, ?_, List.prefix_rfl⟩
        · simp [created, isCached]
        · simp [created, hone, isCached]
      | cached =>
        simp only [advance, hone, List.getElem?_cons_zero, List.eraseIdx_cons_zero]
        refine ⟨⟨.inl rfl, ?_⟩, ?_, List.prefix_append _ _⟩
        · simpa [created, hone, isCached] using hcache
        · simp [created, hone, isCached]

theorem produced_newBlock {manager : JobManager Body} (h : Sequential manager)
    (hidle : manager.calls = []) (block : RpcBlock Body) :
    Produced manager (newBlock crates manager block) := by
  rw [newBlock]
  cases block.header with
  | none => exact produced_same h rfl rfl rfl
  | some rpcHeader =>
    simp only
    cases consensusHeader crates rpcHeader with
    | none => exact produced_same h rfl rfl rfl
    | some header =>
      have hcache := h.cache
      refine ⟨⟨.inr ⟨_, by simp [hidle]; rfl⟩, ?_⟩, ?_, List.prefix_rfl⟩
      · simpa [created, hidle, isCached] using hcache
      · simp [created, hidle, isCached]

theorem produced_step {manager : JobManager Body} (h : Sequential manager) (a : Jobs.Action Body) :
    Produced manager (produce crates manager a) := by
  cases a with
  | newBlock block =>
    rw [produce]
    split
    · rename_i hidle
      exact produced_newBlock crates h (List.isEmpty_iff.mp hidle) block
    · exact produced_same h rfl rfl rfl
  | advance index => exact produced_advance h index
  | scan =>
    simp only [produce, Jobs.step, scan]
    split <;> exact produced_same h rfl rfl rfl
  | collect =>
    simp only [produce, Jobs.step, collect]
    split
    · exact produced_same h rfl rfl rfl
    · split <;> exact produced_same h rfl rfl rfl
  | wait millis => exact produced_same h rfl rfl rfl

end Producer

section Connection

variable {Body : Type} (crates : Crates)

/-- What the miner has got last or gets with the next write. -/
def shown (state : State Body) : Option (Nat × Str) :=
  match state.phase with
  | .accepted | .handshake => none
  | .greeting => state.initial
  | .serving => state.pending.or state.written.getLast?

/-- What holds of a connection at every time. A receiver that has nothing left
to get has shown the newest job that was broadcast, or one that is not broadcast
yet; what came through it grows from write to write. -/
structure Connected (state : State Body) : Prop where
  producer : Sequential state.jobs
  position : state.phase ≠ .accepted → state.next ≤ state.jobs.jobTx.length
  waiting : state.phase ≠ .serving → state.pending = none ∧ state.written = []
  numbered : ∀ e ∈ state.initial.toList ++ state.pending.toList ++ state.written,
    ((created state.jobs)[e.1]?).map StratumJob.payload = some e.2
  newest : state.phase = .greeting ∨ state.phase = .serving →
    state.next = state.jobs.jobTx.length → state.jobs.jobTx = [] ∨
      ∃ e, shown state = some e ∧ state.jobs.jobTx.length ≤ e.1 + 1
  greeted : state.phase = .serving → ∀ e ∈ state.initial, e ∈ state.written
  behind : ∀ p ∈ state.pending, p.1 < state.next
  order : ∀ e ∈ state.written,
    e ∈ state.initial ∨ e.1 < state.next ∧ ∀ p ∈ state.pending, e.1 < p.1

theorem connected_boot : Connected (boot Body) where
  producer := sequential_new
  position := by simp [boot]
  waiting := by simp [boot]
  numbered := by simp [boot]
  newest := by simp [boot]
  greeted := by simp [boot]
  behind := by simp [boot]
  order := by simp [boot]

theorem payload_grows {jobs later : List StratumJob} (h : jobs <+: later) {k : Nat} {payload : Str}
    (hk : (jobs[k]?).map StratumJob.payload = some payload) :
    (later[k]?).map StratumJob.payload = some payload := by
  obtain ⟨rest, rfl⟩ := h
  obtain ⟨job, hjob, _⟩ := Option.map_eq_some_iff.mp hk
  obtain ⟨hlt, _⟩ := List.getElem?_eq_some_iff.mp hjob
  rwa [List.getElem?_append_left hlt]

/-- The producer's steps: a receiver that has everything after one of them had
everything before it. -/
theorem connected_produce {state : State Body} (h : Connected state) (a : Jobs.Action Body)
    (taken : List (RpcBlock Body)) :
    Connected { state with jobs := produce crates state.jobs a, taken } := by
  have hp := produced_step crates h.producer a
  have hlen := hp.broadcast.length_le
  refine ⟨hp.sequential, ?_, h.waiting, ?_, ?_, h.greeted, h.behind, h.order⟩
  · intro hphase
    exact (h.position hphase).trans hlen
  · intro e he
    exact payload_grows hp.grows (h.numbered e he)
  · intro hphase hdrained
    have hposition := h.position (by obtain hp | hp := hphase <;> simp [show state.phase = _ from hp])
    have hsame : state.jobs.jobTx = (produce crates state.jobs a).jobTx :=
      hp.broadcast.eq_of_length (by simp only at hdrained hposition ⊢; omega)
    have hnewest := h.newest hphase (by rw [hsame]; exact hdrained)
    rwa [hsame] at hnewest

theorem connected_subscribe {state : State Body} (h : Connected state)
    (hphase : state.phase = .accepted) :
    Connected { state with phase := .handshake, next := state.jobs.jobTx.length } := by
  obtain ⟨hpending, hwritten⟩ := h.waiting (by simp [hphase])
  refine ⟨h.producer, ?_, ?_, h.numbered, ?_, ?_, ?_, ?_⟩
  · intro _
    exact Nat.le_refl _
  · intro _
    exact ⟨hpending, hwritten⟩
  · simp
  · simp
  · simp [hpending]
  · simp [hwritten]

/-- The cache is read after the subscription, so it holds at least what the
receiver does not get any more. -/
theorem connected_readCache {state : State Body} (h : Connected state)
    (hphase : state.phase = .handshake) :
    Connected { state with phase := .greeting, initial := readCache state.jobs } := by
  obtain ⟨hpending, hwritten⟩ := h.waiting (by simp [hphase])
  have hread : readCache state.jobs = (created state.jobs).getLast?.map
      (fun job => ((created state.jobs).length - 1, job.payload)) := by
    rw [readCache, h.producer.cache, Option.map_map]
    rfl
  refine ⟨h.producer, ?_, ?_, ?_, ?_, ?_, ?_, ?_⟩
  · intro _
    exact h.position (by simp [hphase])
  · intro _
    exact ⟨hpending, hwritten⟩
  · intro e he
    have he : some e = readCache state.jobs := by simpa [hpending, hwritten, eq_comm] using he
    obtain ⟨job, hjob, rfl⟩ := Option.map_eq_some_iff.mp (hread.symm.trans he.symm)
    rw [← List.getLast?_eq_getElem?, hjob, Option.map_some]
  · intro _ _
    cases hlast : (created state.jobs).getLast? with
    | none =>
      have hnil := List.getLast?_eq_none_iff.mp hlast
      exact .inl (List.append_eq_nil_iff.mp hnil).1
    | some job =>
      refine .inr ⟨((created state.jobs).length - 1, job.payload), ?_, ?_⟩
      · rw [shown, hread, hlast, Option.map_some]
      · have hlen : state.jobs.jobTx.length ≤ (created state.jobs).length := by simp [created]
        simp only
        omega
  · simp
  · simp [hpending]
  · simp [hwritten]

theorem connected_writeCached {state : State Body} (h : Connected state)
    (hphase : state.phase = .greeting) :
    Connected { state with
      phase := .serving
      written := state.written ++ state.initial.toList } := by
  obtain ⟨hpending, hwritten⟩ := h.waiting (by simp [hphase])
  refine ⟨h.producer, ?_, ?_, ?_, ?_, ?_, ?_, ?_⟩
  · intro _
    exact h.position (by simp [hphase])
  · simp
  · intro e he
    exact h.numbered e (by simpa [hpending, hwritten] using he)
  · intro _ hdrained
    have hnewest := h.newest (.inl hphase) hdrained
    rw [shown, hphase] at hnewest
    cases hinitial : state.initial with
    | none => simpa [shown, hpending, hwritten, hinitial] using hnewest
    | some e => simpa [shown, hpending, hwritten, hinitial] using hnewest
  · intro _ e he
    simpa [hwritten] using he
  · simp [hpending]
  · intro e he
    exact .inl (by simpa [hwritten] using he)

theorem connected_receive {state : State Body} (h : Connected state)
    (hphase : state.phase = .serving) : Connected (receive state) := by
  have hposition := h.position (by simp [hphase])
  obtain ⟨hrecv, hend⟩ | ⟨later, hrecv, hlater, hless⟩ | ⟨job, hrecv, hjob⟩ :=
    Broadcast.recv_cases (by decide : 0 < 1024) hposition
  · rw [receive, hrecv]
    exact h
  · -- A skip leaves something to receive, so nothing is said of the newest job.
    rw [receive, hrecv]
    refine ⟨h.producer, fun _ => hless.le, h.waiting, h.numbered, ?_, h.greeted, ?_, ?_⟩
    · intro _ hdrained
      exact absurd hdrained hless.ne
    · intro p hp
      exact (h.behind p hp).trans hlater
    · intro e he
      exact (h.order e he).imp_right (fun ho => ⟨ho.1.trans hlater, ho.2⟩)
  · rw [receive, hrecv]
    obtain ⟨hlt, _⟩ := List.getElem?_eq_some_iff.mp hjob
    refine ⟨h.producer, fun _ => hlt, ?_, ?_, ?_, h.greeted, ?_, ?_⟩
    · simp [hphase]
    · intro e he
      simp only [Option.toList_some, List.mem_append, List.mem_singleton] at he
      obtain (hinitial | rfl) | hwritten := he
      · exact h.numbered e (by simp [hinitial])
      · exact payload_grows (List.prefix_append _ _) (by rw [hjob, Option.map_some])
      · exact h.numbered e (by simp [hwritten])
    · intro _ hdrained
      exact .inr ⟨_, by simp [shown, hphase]; rfl, hdrained.ge⟩
    · simp
    · intro e he
      apply (h.order e he).imp_right
      intro ho
      refine ⟨ho.1.trans (Nat.lt_succ_self _), ?_⟩
      intro p hp
      cases hp
      exact ho.1

theorem connected_tick {state : State Body} (h : Connected state)
    (hphase : state.phase = .serving) :
    Connected { state with
      written := state.written ++ state.pending.toList
      pending := none } := by
  refine ⟨h.producer, h.position, ?_, ?_, ?_, ?_, ?_, ?_⟩
  · simp [hphase]
  · intro e he
    apply h.numbered e
    simp only [Option.toList_none, List.append_nil, List.mem_append] at he ⊢
    tauto
  · intro _ hdrained
    have hnewest := h.newest (.inr hphase) hdrained
    cases hpending : state.pending with
    | none => simpa [shown, hphase, hpending] using hnewest
    | some p => simpa [shown, hphase, hpending] using hnewest
  · intro _ e he
    exact List.mem_append_left _ (h.greeted hphase e he)
  · simp
  · intro e he
    obtain hold | hpending := List.mem_append.mp he
    · exact (h.order e hold).imp_right (fun ho => ⟨ho.1, by simp⟩)
    · exact .inr ⟨h.behind e (Option.mem_toList.mp hpending), by simp⟩

theorem connected_step {state : State Body} (h : Connected state) (a : Action Body) :
    Connected (step crates state a) := by
  cases a with
  | produce a => exact connected_produce crates h a _
  | subscribe =>
    rw [step]
    split
    · exact connected_subscribe h ‹_›
    · exact h
  | readCache =>
    rw [step]
    split
    · exact connected_readCache h ‹_›
    · exact h
  | writeCached =>
    rw [step]
    split
    · exact connected_writeCached h ‹_›
    · exact h
  | receive =>
    rw [step]
    split
    · exact connected_receive h ‹_›
    · exact h
  | tick =>
    rw [step]
    split
    · exact connected_tick h ‹_›
    · exact h

theorem connected_run (as : List (Action Body)) :
    Always (step crates) Connected (boot Body) as :=
  always_of_invariant connected_boot (fun _ a h => connected_step crates h a) as

/-- A connection that has nothing left to receive or to write. -/
structure Settled (state : State Body) : Prop where
  serving : state.phase = .serving
  broadcast : ∀ call ∈ state.jobs.calls, isCached call.stage = false
  drained : state.next = state.jobs.jobTx.length
  written : state.pending = none

theorem newest_of_connected {state : State Body} (h : Connected state) (hs : Settled state) :
    state.written.getLast?.map Prod.snd = state.jobs.jobTx.getLast?.map StratumJob.payload := by
  have hcreated := created_idle hs.broadcast
  have hnumbered : ∀ e ∈ state.written,
      (state.jobs.jobTx[e.1]?).map StratumJob.payload = some e.2 := by
    intro e he
    rw [← hcreated]
    exact h.numbered e (List.mem_append_right _ he)
  obtain hnone | ⟨e, hshown, hlen⟩ := h.newest (.inr hs.serving) hs.drained
  · have hempty : state.written = [] := by
      apply List.eq_nil_iff_forall_not_mem.mpr
      intro e he
      simpa [hnone] using hnumbered e he
    rw [hempty, hnone]
    rfl
  · have hlast : state.written.getLast? = some e := by
      simpa [shown, hs.serving, hs.written] using hshown
    have hpayload := hnumbered e (List.mem_of_getLast? hlast)
    obtain ⟨job, hjob, hp⟩ := Option.map_eq_some_iff.mp hpayload
    obtain ⟨hlt, _⟩ := List.getElem?_eq_some_iff.mp hjob
    have hindex : e.1 = state.jobs.jobTx.length - 1 := by omega
    rw [hlast, List.getLast?_eq_getElem?, ← hindex, hpayload, Option.map_some]

/-- Each block that was taken has its job, told as the block says. The jobs are
numbered from one in the order of their blocks. -/
structure Numbered (state : State Body) : Prop where
  counter : state.jobs.jobCounter = UInt64.ofNat (state.taken.length + 1)
  told : (state.jobs.jobTx ++ state.jobs.calls.map Call.job).map (fun job => some job.payload) =
    state.taken.mapIdx (fun i block => announcement crates (i + 1) block)

theorem numbered_boot : Numbered crates (boot Body) := ⟨rfl, rfl⟩

theorem numbered_same {state after : State Body} (h : Numbered crates state)
    (hcounter : after.jobs.jobCounter = state.jobs.jobCounter)
    (hcalls : after.jobs.calls = state.jobs.calls) (htx : after.jobs.jobTx = state.jobs.jobTx)
    (htaken : after.taken = state.taken) : Numbered crates after := by
  constructor
  · rw [hcounter, htaken]
    exact h.counter
  · rw [hcalls, htx, htaken]
    exact h.told

/-- A call writes its job to one place after the other. The last of them is the
broadcast, where the call leaves the line and its job joins it. -/
theorem numbered_advance {state : State Body} (h : Numbered crates state)
    (hs : Sequential state.jobs) (index : Nat) :
    Numbered crates { state with jobs := advance state.jobs index } := by
  obtain hnone | ⟨⟨job, entry, stage⟩, hone⟩ := hs.single
  · have hstop : advance state.jobs index = state.jobs := by simp [advance, hnone]
    rw [hstop]
    exact h
  · cases index with
    | succ n =>
      have hstop : advance state.jobs (n + 1) = state.jobs := by simp [advance, hone]
      rw [hstop]
      exact h
    | zero =>
      have htold := h.told
      rw [hone] at htold
      cases stage <;> simp only [advance, hone, List.getElem?_cons_zero, List.set_cons_zero,
        List.eraseIdx_cons_zero]
      · exact ⟨h.counter, htold⟩
      · exact ⟨h.counter, htold⟩
      · exact ⟨h.counter, htold⟩
      · exact ⟨h.counter, by simpa using htold⟩

theorem numbered_newBlock {state : State Body} (h : Numbered crates state)
    (hidle : state.jobs.calls = []) (block : RpcBlock Body) :
    Numbered crates
      { state with
        jobs := newBlock crates state.jobs block
        taken := take crates state.jobs state.taken (.newBlock block) } := by
  cases hheader : block.header with
  | none => simpa [newBlock, take, hheader] using h
  | some rpcHeader =>
    cases hconv : consensusHeader crates rpcHeader with
    | none => simpa [newBlock, take, hheader, hconv] using h
    | some header =>
      have htake : take crates state.jobs state.taken (.newBlock block) =
          state.taken ++ [block] := by
        simp [take, hidle, hheader, hconv]
      have htold := h.told
      simp only [hidle, List.map_nil, List.append_nil] at htold
      rw [htake]
      simp only [newBlock, hheader, hconv]
      constructor
      · simp only [h.counter, List.length_append, List.length_singleton]
        exact (UInt64.ofNat_add _ 1).symm
      · have hsaid : announcement crates (state.taken.length + 1) block =
            some (notifyPayload crates (lowHex (UInt64.ofNat (state.taken.length + 1))) header
              rpcHeader.timestamp.toUInt64) := by
          simp [announcement, hheader, hconv]
        simp only [hidle, List.nil_append, List.map_append, List.map_cons, List.map_nil, htold,
          List.mapIdx_concat, hsaid, h.counter]

theorem numbered_step {state : State Body} (h : Numbered crates state) (hs : Sequential state.jobs)
    (a : Action Body) : Numbered crates (step crates state a) := by
  cases a with
  | produce a =>
    rw [step]
    cases a with
    | newBlock block =>
      by_cases hidle : state.jobs.calls = []
      · have hbegun : produce crates state.jobs (.newBlock block) =
            newBlock crates state.jobs block := by simp [produce, hidle]
        rw [hbegun]
        exact numbered_newBlock crates h hidle block
      · simpa [produce, take, hidle] using h
    | advance index => exact numbered_advance crates h hs index
    | scan =>
      apply numbered_same crates h <;> simp only [produce, Jobs.step, scan, take] <;> split <;> rfl
    | collect =>
      apply numbered_same crates h <;> simp only [produce, Jobs.step, collect, take] <;> split
      all_goals first | rfl | (split <;> rfl)
    | wait millis => exact numbered_same crates h rfl rfl rfl rfl
  | receive =>
    rw [step]
    split
    · rw [receive]
      split <;> exact numbered_same crates h rfl rfl rfl rfl
    · exact h
  | subscribe | readCache | writeCached | tick =>
    rw [step]
    split
    · exact numbered_same crates h rfl rfl rfl rfl
    · exact h

/-- The jobs that are broadcast are those of the blocks that are processed. -/
theorem broadcast_processed {state : State Body} (h : Numbered crates state)
    (hs : Sequential state.jobs) :
    state.jobs.jobTx.map (fun job => some job.payload) =
      (processed state).mapIdx (fun i block => announcement crates (i + 1) block) := by
  have htold := h.told
  obtain hnone | ⟨call, hone⟩ := hs.single
  · simpa [processed, hnone] using htold
  · obtain hnil | ⟨before, block, htaken⟩ := state.taken.eq_nil_or_concat'
    · simp [hone, hnil] at htold
    · rw [processed, hone, htaken, List.isEmpty_cons, if_neg Bool.false_ne_true,
        List.dropLast_concat]
      rw [hone, htaken, List.mapIdx_concat] at htold
      simp only [List.map_append, List.map_cons, List.map_nil] at htold
      exact (List.append_inj' htold rfl).1

/-- Conflation does not lose the newest job: the payload written last is that of
the block processed last, and none where no block was processed. -/
theorem newest_job_written (as : List (Action Body)) :
    Always (step crates) (fun state => Settled state →
      state.written.getLast?.map Prod.snd =
        (processed state).getLast?.bind (announcement crates (processed state).length))
      (boot Body) as := by
  have hinv : Always (step crates) (fun state => Connected state ∧ Numbered crates state)
      (boot Body) as :=
    always_of_invariant ⟨connected_boot, numbered_boot crates⟩
      (fun _ a h => ⟨connected_step crates h.1 a, numbered_step crates h.2 h.1.producer a⟩) as
  refine always_mono ?_ hinv
  intro state ⟨hc, hn⟩ hs
  rw [newest_of_connected hc hs]
  have hlast := congrArg List.getLast? (broadcast_processed crates hn hc.producer)
  rw [List.getLast?_map, List.getLast?_mapIdx] at hlast
  cases hblock : (processed state).getLast? with
  | none =>
    rw [hblock, Option.map_none, Option.map_eq_none_iff] at hlast
    rw [hlast]
    rfl
  | some block =>
    have hlen : 0 < (processed state).length := List.length_pos_of_mem (List.mem_of_getLast? hblock)
    rw [hblock, Option.map_some, Nat.sub_add_cancel hlen] at hlast
    obtain ⟨job, hjob, hsaid⟩ := Option.map_eq_some_iff.mp hlast
    rw [hjob, Option.map_some, Option.bind_some]
    exact hsaid

/-- The jobs at the socket stand in the order of their creation. -/
def Ordered (state : State Body) : Prop := (state.written.map Prod.fst).Pairwise (· ≤ ·)

/-- A tick in the loop does not find a pending job that is older than the one
read from the cache. -/
def CaughtUp (state : State Body) : Action Body → Prop
  | .tick => state.phase = .serving →
      ∀ p ∈ state.pending, ∀ e ∈ state.initial, e.1 ≤ p.1
  | _ => True

theorem ordered_tick {state : State Body} (h : Connected state) (ho : Ordered state)
    (hphase : state.phase = .serving) :
    ((state.written ++ state.pending.toList).map Prod.fst).Pairwise (· ≤ ·) ↔
      ∀ p ∈ state.pending, ∀ e ∈ state.initial, e.1 ≤ p.1 := by
  cases hpending : state.pending with
  | none => simpa [Ordered] using ho
  | some p =>
    rw [Option.toList_some, List.map_append, List.pairwise_append]
    constructor
    · rintro ⟨_, _, hcross⟩ q hq e he
      cases hq
      exact hcross e.1 (List.mem_map_of_mem (h.greeted hphase e he)) p.1 (by simp)
    · intro hg
      refine ⟨ho, by simp, ?_⟩
      intro k hk j hj
      obtain ⟨e, he, rfl⟩ := List.mem_map.mp hk
      obtain rfl : j = p.1 := by simpa using hj
      obtain hinitial | ⟨_, hless⟩ := h.order e he
      · exact hg p rfl e hinitial
      · exact (hless p hpending).le

theorem ordered_step {state : State Body} (h : Connected state) (ho : Ordered state)
    (a : Action Body) : Ordered (step crates state a) ↔ CaughtUp state a := by
  cases a with
  | tick =>
    simp only [step, CaughtUp]
    by_cases hphase : state.phase = .serving
    · rw [if_pos hphase]
      exact (ordered_tick h ho hphase).trans ⟨fun hg _ => hg, fun hg => hg hphase⟩
    · simpa [hphase] using ho
  | writeCached =>
    apply iff_of_true ?_ trivial
    rw [step]
    split
    · rename_i hphase
      have hwritten := (h.waiting (by simp [hphase])).2
      rw [Ordered, hwritten]
      cases state.initial <;> simp
    · exact ho
  | receive =>
    apply iff_of_true ?_ trivial
    rw [step]
    split
    · rw [receive]
      split <;> exact ho
    · exact ho
  | produce a => exact iff_of_true ho trivial
  | subscribe =>
    apply iff_of_true ?_ trivial
    rw [step]
    split <;> exact ho
  | readCache =>
    apply iff_of_true ?_ trivial
    rw [step]
    split <;> exact ho

theorem jobs_ordered_iff (as : List (Action Body)) :
    Always (step crates) Ordered (boot Body) as ↔ Guarded (step crates) CaughtUp (boot Body) as :=
  always_iff_guarded (connected_run crates as) List.Pairwise.nil
    (fun _ a h ho => ordered_step crates h ho a)

end Connection

section Examples

def oneJob : List (Action Unit) :=
  .produce (.newBlock template) :: List.replicate 4 (.produce (.advance 0))

/-- Two jobs come while the miner is in its handshake. It gets the second one
from the cache and then the first one from its receiver. -/
def slowHandshake : List (Action Unit) :=
  [.subscribe] ++ oneJob ++ oneJob ++ [.readCache, .writeCached, .receive, .tick]

theorem older_job_after_newer :
    ¬ ∀ crates : Crates, ∀ as : List (Action Unit),
      Always (step crates) Ordered (boot Unit) as := by
  intro h
  have hordered := (h tameCrates slowHandshake).last
  have hwritten : (run (step tameCrates) (boot Unit) slowHandshake).written.map Prod.fst =
      [1, 0] := by
    decide +kernel
  rw [Ordered, hwritten] at hordered
  exact absurd hordered (by decide)

end Examples

end StratumPool.Feed
