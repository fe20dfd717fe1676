import StratumPool.Lib.Binary64
import StratumPool.Acceptance
import StratumPool.LedgerRuns

namespace StratumPool.Accounting

open Lib Lib.Runs StratumPool.Text StratumPool.Json StratumPool.Kaspa StratumPool.Jobs
  StratumPool.Submit StratumPool.Ledger StratumPool.LedgerRuns
open StratumPool.Server (Connection acceptedShare step_outcome)
open StratumPool.Telemetry (Engine Redis WorkerState)

/-- The stratum server and the accounting engine at the two ends of their
channel. `workerShares` is the counter `WORKER_SHARES` under its label `valid`,
which both of them raise. -/
structure State (Body R : Type) where
  server : Server.State Body
  engine : Engine R
  workerShares : Str → UInt64

def boot {R : Type} (Body : Type) (redis : Redis R) : State Body R :=
  ⟨Server.boot Body, Telemetry.boot redis, fun _ => 0⟩

/-- The steps of the server, the two arms of the engine's loop among them. -/
inductive Action (Body R : Type) where
  | server (action : Server.Action Body)
  | receive (now : Nat)
  | flush (now : Nat) (order : IterOrder (Sigma fun _ : Str => WorkerState R)) (ok : Bool)

abbrev Message := Str × Float

variable {Body R : Type} [Field R] [LinearOrder R]

section Steps

variable (exp : R → R) (value : Float → R) (crates : Crates) (float : Float → Str)

/-- `with_label_values(&[worker, "valid"]).inc_by(n)` -/
def incBy (counter : Str → UInt64) (worker : Str) (n : UInt64) : Str → UInt64 :=
  Function.update counter worker (counter worker + n)

/-- The share that the engine gets when it asks for one. -/
def nextShare (state : State Body R) : Option Message :=
  if state.server.validShares.isOpen then state.server.validShares.queue.head? else none

def receive (state : State Body R) (now : Nat) : State Body R :=
  match nextShare state with
  | none => state
  | some (worker, difficulty) =>
      { server := Server.step crates float state.server .receiveShare
        engine := Telemetry.step exp state.engine (.share worker (value difficulty) now)
        workerShares := incBy state.workerShares worker difficulty.toUInt64 }

def serve (state : State Body R) (action : Server.Action Body) : State Body R :=
  { state with
    server := Server.step crates float state.server action
    workerShares :=
      match acceptedShare crates float state.server action with
      | none => state.workerShares
      | some (worker, _) => incBy state.workerShares worker 1 }

def step (state : State Body R) : Action Body R → State Body R
  | .server .receiveShare => state
  | .server action => serve crates float state action
  | .receive now => receive exp value crates float state now
  | .flush now order ok =>
      { state with engine := Telemetry.step exp state.engine (.flush now order ok) }

/-- The message of a share that a step counts as accepted. -/
def accepted (state : State Body R) : Action Body R → Option Message
  | .server action => acceptedShare crates float state.server action
  | _ => none

/-- The messages a step drops: one for which the channel has no room, and all
that are queued when the engine goes. -/
def dropped (state : State Body R) : Action Body R → List Message
  | .server .closeShares => state.server.validShares.queue
  | a => if state.server.validShares.accepts then [] else (accepted crates float state a).toList

/-- The message the engine receives in a step. -/
def taken (state : State Body R) : Action Body R → List Message
  | .receive _ => (nextShare state).toList
  | _ => []

def acceptedOver (state : State Body R) (as : List (Action Body R)) : List Message :=
  expand (step exp value crates float) (fun t a => (accepted crates float t a).toList) state as

def droppedOver (state : State Body R) (as : List (Action Body R)) : List Message :=
  expand (step exp value crates float) (dropped crates float) state as

/-- What a step is to the engine. -/
def engineActs (state : State Body R) : Action Body R → List (Telemetry.Action R)
  | .server _ => []
  | .receive now =>
      ((nextShare state).map fun m => Telemetry.Action.share m.1 (value m.2) now).toList
  | .flush now order ok => [.flush now order ok]

def engineOver (state : State Body R) (as : List (Action Body R)) : List (Telemetry.Action R) :=
  expand (step exp value crates float) (engineActs value) state as

end Steps

section Channel

variable (exp : R → R) (value : Float → R) (crates : Crates) (float : Float → Str)

omit [Field R] [LinearOrder R] in
theorem dropped_of_none {state : State Body R} {a : Action Body R}
    (hclose : a ≠ .server .closeShares) (hnone : accepted crates float state a = none) :
    dropped crates float state a = [] := by
  rw [dropped]
  · simp [hnone]
  · exact hclose

/-- What is accepted stays on its way through the channel or is dropped. -/
theorem kept_step (state : State Body R) (a : Action Body R) :
    ((step exp value crates float state a).server.validShares.kept ++
        dropped crates float state a).Perm
      (state.server.validShares.kept ++ (accepted crates float state a).toList) := by
  have hsilent : a ≠ .server .closeShares → accepted crates float state a = none →
      (step exp value crates float state a).server.validShares.kept =
        state.server.validShares.kept →
      ((step exp value crates float state a).server.validShares.kept ++
          dropped crates float state a).Perm
        (state.server.validShares.kept ++ (accepted crates float state a).toList) := by
    intro hclose hnone hkept
    rw [dropped_of_none crates float hclose hnone, hnone, hkept]
    rfl
  cases a with
  | server action =>
    have hchannel := (step_outcome crates float state.server action).validShares
    cases action with
    | receiveShare => exact hsilent (by simp) rfl rfl
    | closeShares =>
      simp only [step, serve, hchannel, dropped, accepted]
      rw [Channel.kept_close]
      exact List.Perm.of_eq (List.append_nil _).symm
    | _ =>
      simp only [step, serve, hchannel, dropped, accepted]
      cases acceptedShare crates float state.server _ with
      | none => simp
      | some m => cases haccepts : state.server.validShares.accepts <;> simp [haccepts]
  | receive now =>
    refine hsilent (by simp) rfl ?_
    simp only [step, receive]
    split
    · rfl
    · exact Channel.kept_recv _
  | flush now order ok => exact hsilent (by simp) rfl rfl

/-- Every accepted share has been received by the engine, is queued or was
dropped, and each only once. -/
theorem accepted_run (redis : Redis R) (as : List (Action Body R)) :
    ((run (step exp value crates float) (boot Body redis) as).server.validShares.kept ++
        droppedOver exp value crates float (boot Body redis) as).Perm
      (acceptedOver exp value crates float (boot Body redis) as) := by
  induction as using List.reverseRecOn with
  | nil => exact List.Perm.refl _
  | append_singleton pre a ih =>
    have hstep := kept_step exp value crates float
      (run (step exp value crates float) (boot Body redis) pre) a
    rw [droppedOver, acceptedOver, expand_concat, expand_concat, run_concat]
    rw [droppedOver, acceptedOver] at ih
    generalize expand _ (dropped crates float) _ pre = drops at ih ⊢
    generalize run _ _ pre = state at ih hstep ⊢
    calc _
      _ = (step exp value crates float state a).server.validShares.kept ++
            (drops ++ dropped crates float state a) := rfl
      List.Perm _ ((step exp value crates float state a).server.validShares.kept ++
            dropped crates float state a ++ drops) := by
          rw [List.append_assoc]
          exact List.perm_append_comm.append_left _
      List.Perm _ (state.server.validShares.kept ++ (accepted crates float state a).toList ++
            drops) := hstep.append_right _
      List.Perm _ (state.server.validShares.kept ++ drops ++
            (accepted crates float state a).toList) := by
          rw [List.append_assoc, List.append_assoc]
          exact List.perm_append_comm.append_left _
      List.Perm _ _ := ih.append_right _

/-- The engine gets the messages of the channel in their order. -/
theorem received_step (state : State Body R) (a : Action Body R) :
    (step exp value crates float state a).server.validShares.received =
      state.server.validShares.received ++ taken state a := by
  cases a with
  | server action =>
    have hchannel := (step_outcome crates float state.server action).validShares
    have htaken : taken state (.server action : Action Body R) = [] := rfl
    rw [htaken, List.append_nil]
    cases action with
    | receiveShare => rfl
    | closeShares => simp only [step, serve, hchannel, Channel.close]
    | _ =>
      simp only [step, serve, hchannel]
      cases acceptedShare crates float state.server _ with
      | none => rfl
      | some m => exact Channel.received_trySend _ m
  | receive now =>
    simp only [step, receive]
    split
    · rename_i hnone
      simp [taken, hnone]
    · rename_i worker difficulty hsome
      simp only [Server.step, Channel.received_recv, taken]
      rw [← nextShare, hsome]
  | flush now order ok => exact (List.append_nil _).symm

end Channel

section Positive

variable (exp : R → R) (value : Float → R) (crates : Crates) (float : Float → Str)

/-- A difficulty that a connection is given counts for something. -/
def GivesDifficulty : Action Body R → Prop
  | .server (.connect _ currentDiff) => 0 < value currentDiff.toFloat
  | .server (.retarget _ newDiff) => 0 < value newDiff.toFloat
  | _ => True

/-- So does the difficulty of each connection and of each message. -/
structure Sound (state : State Body R) : Prop where
  connections : ∀ conn ∈ state.server.connections, 0 < value conn.currentDiff.toFloat
  queue : ∀ m ∈ state.server.validShares.queue, 0 < value m.2
  booked : AllBooked state.engine

omit [LinearOrder R] [Field R] in
/-- A submission keeps the difficulty of its connection. -/
theorem connections_settle (server : Server.State Body) (index : Nat) (conn : Connection)
    (submission : Submission) :
    ∃ conn', conn'.currentDiff = conn.currentDiff ∧
      (Server.settleSubmission crates server index conn submission).connections =
        server.connections.set index conn' := by
  have hnamed : { conn with currentWorkerName := submission.worker }.currentDiff =
      conn.currentDiff := rfl
  rw [Server.settleSubmission]
  cases judge crates server.jobs.activeJobs conn.currentDiff submission with
  | share header =>
    exact ⟨{ conn with currentWorkerName := submission.worker, shareCount := conn.shareCount + 1 },
      rfl, rfl⟩
  | stale => exact ⟨_, hnamed, rfl⟩
  | networkBlock header rpcBlock => exact ⟨_, hnamed, rfl⟩
  | invalid header => exact ⟨_, hnamed, rfl⟩

variable {value}

omit [LinearOrder R] [Field R] in
/-- A share counts with the difficulty of its connection. -/
theorem accepted_difficulty {server : Server.State Body} {action : Server.Action Body}
    {m : Message} (hm : acceptedShare crates float server action = some m) :
    ∃ conn ∈ server.connections, m.2 = conn.currentDiff.toFloat := by
  cases action with
  | submit index params =>
    rw [acceptedShare] at hm
    split at hm
    · rename_i conn submission header hverdict
      cases hm
      simp only [Server.verdictOf, Option.bind_eq_bind, Option.bind_eq_some_iff] at hverdict
      obtain ⟨c, hc, s, -, he⟩ := hverdict
      obtain ⟨rfl, -⟩ := Prod.mk.inj (Option.some.inj he)
      exact ⟨c, List.mem_of_getElem? hc, rfl⟩
    · cases hm
  | _ => cases hm

theorem Sound.accepted {state : State Body R} (h : Sound value state)
    {action : Server.Action Body} {m : Message}
    (hm : acceptedShare crates float state.server action = some m) : 0 < value m.2 := by
  obtain ⟨conn, hconn, hdiff⟩ := accepted_difficulty crates float hm
  rw [hdiff]
  exact h.connections conn hconn

/-- The difficulties that connections are given have the property. -/
def GivesOnly (P : UInt64 → Prop) : Server.Action Body → Prop
  | .connect _ currentDiff => P currentDiff
  | .retarget _ newDiff => P newDiff
  | _ => True

omit [LinearOrder R] [Field R] in
theorem connections_step {P : UInt64 → Prop} {server : Server.State Body}
    (h : ∀ conn ∈ server.connections, P conn.currentDiff) {action : Server.Action Body}
    (ha : GivesOnly P action) :
    ∀ conn ∈ (Server.step crates float server action).connections, P conn.currentDiff := by
  intro conn hconn
  cases action with
  | connect connId currentDiff =>
    obtain hconn | hconn := List.mem_append.mp hconn
    · exact h conn hconn
    · rw [List.mem_singleton.mp hconn]
      exact ha
  | disconnect index => exact h conn (List.mem_of_mem_eraseIdx hconn)
  | retarget index newDiff =>
    simp only [Server.step, Server.retarget] at hconn
    split at hconn
    · exact h conn hconn
    · obtain hconn | rfl := List.mem_or_eq_of_mem_set hconn
      · exact h conn hconn
      · exact ha
  | submit index params =>
    rw [Server.step] at hconn
    obtain ⟨-, hsubmit⟩ | ⟨old, submission, hold, -, hsubmit⟩ :=
      Server.submit_cases crates float server index params
    · rw [hsubmit] at hconn
      exact h conn hconn
    · obtain ⟨conn', hdiff, hset⟩ := connections_settle crates server index old submission
      rw [hsubmit, hset] at hconn
      obtain hconn | rfl := List.mem_or_eq_of_mem_set hconn
      · exact h conn hconn
      · rw [hdiff]
        exact h old (List.mem_of_getElem? hold)
  | jobs action => exact h conn hconn
  | receiveShare => exact h conn hconn
  | closeShares => exact h conn hconn
  | forwardBlock => exact h conn hconn

theorem Sound.connections_step {state : State Body R} (h : Sound value state)
    (action : Server.Action Body)
    (ha : GivesDifficulty value (.server action : Action Body R)) :
    ∀ conn ∈ (Server.step crates float state.server action).connections,
      0 < value conn.currentDiff.toFloat := by
  apply Accounting.connections_step crates float (P := fun d => 0 < value d.toFloat) h.connections
  cases action <;> exact ha

theorem Sound.next {state : State Body R} (h : Sound value state) {m : Message}
    (hm : nextShare state = some m) : 0 < value m.2 := by
  rw [nextShare] at hm
  split at hm
  · exact h.queue m (List.mem_of_head? hm)
  · cases hm

/-- Only the share of a submission comes into the channel. -/
theorem mem_queue_step {server : Server.State Body} {action : Server.Action Body} {m : Message}
    (hm : m ∈ (Server.step crates float server action).validShares.queue) :
    m ∈ server.validShares.queue ∨ acceptedShare crates float server action = some m := by
  have hchannel := (step_outcome crates float server action).validShares
  cases action with
  | receiveShare => exact .inl ((Channel.queue_recv_sublist _).subset hm)
  | closeShares =>
    rw [hchannel] at hm
    cases hm
  | _ =>
    rw [hchannel] at hm
    cases haccepted : acceptedShare crates float server _ with
    | none =>
      rw [haccepted] at hm
      exact .inl hm
    | some sent =>
      rw [haccepted, Option.elim_some, Channel.queue_trySend] at hm
      obtain hm | hm := List.mem_append.mp hm
      · exact .inl hm
      · split at hm
        · exact .inr (congrArg some (List.mem_singleton.mp hm).symm)
        · cases hm

theorem Sound.queue_step {state : State Body R} (h : Sound value state)
    (action : Server.Action Body) :
    ∀ m ∈ (Server.step crates float state.server action).validShares.queue, 0 < value m.2 := by
  intro m hm
  obtain hm | haccepted := mem_queue_step crates float hm
  · exact h.queue m hm
  · exact h.accepted crates float haccepted

theorem sound_step {state : State Body R} (h : Sound value state) (a : Action Body R)
    (ha : GivesDifficulty value a) : Sound value (step exp value crates float state a) := by
  cases a with
  | server action =>
    by_cases hreceive : action = .receiveShare
    · rwa [hreceive]
    · have hstep : step exp value crates float state (.server action) =
          serve crates float state action := by
        cases action with
        | receiveShare => exact absurd rfl hreceive
        | _ => rfl
      rw [hstep]
      exact ⟨h.connections_step crates float action ha, h.queue_step crates float action, h.booked⟩
  | receive now =>
    simp only [step, receive]
    split
    · exact h
    · rename_i worker difficulty hnext
      refine ⟨h.connections, h.queue_step crates float .receiveShare, ?_⟩
      exact booked_step exp h.booked (.share worker (value difficulty) now) (h.next hnext)
  | flush now order ok =>
    exact ⟨h.connections, h.queue, booked_step exp h.booked (.flush now order ok) trivial⟩

theorem sound_run (redis : Redis R) {as : List (Action Body R)}
    (hpos : ∀ a ∈ as, GivesDifficulty value a) :
    Always (step exp value crates float) (Sound value) (boot Body redis) as := by
  refine Guarded.always (G := fun _ a => GivesDifficulty value a)
    (guarded_of_forall (fun _ => hpos)) ?_ (fun _ a h ha => sound_step exp crates float h a ha)
  exact ⟨by simp [boot, Server.boot], by simp [boot, Server.boot, Channel.empty],
    booked_boot redis⟩

end Positive

section Books

variable (exp : R → R) (value : Float → R) (crates : Crates) (float : Float → Str)

/-- What the messages of a list are worth to the wallet. -/
def worth (wallet : Str) (messages : List Message) : R :=
  (messages.map (fun m => owed wallet m.1 (value m.2))).sum

omit [LinearOrder R] in
theorem worth_append (wallet : Str) (ms ns : List Message) :
    worth value wallet (ms ++ ns) = worth value wallet ms + worth value wallet ns := by
  rw [worth, List.map_append, List.sum_append]
  rfl

theorem engine_step (state : State Body R) (a : Action Body R) :
    (step exp value crates float state a).engine =
      run (Telemetry.step exp) state.engine (engineActs value state a) := by
  cases a with
  | server action => cases action <;> rfl
  | receive now =>
    simp only [step, receive, engineActs]
    split
    · rename_i hnone
      rw [hnone]
      rfl
    · rename_i worker difficulty hsome
      rw [hsome]
      rfl
  | flush now order ok => rfl

/-- The shares of the engine are the messages it receives. -/
theorem received_worth (wallet : Str) (redis : Redis R) (as : List (Action Body R)) :
    receivedOver wallet (engineOver exp value crates float (boot Body redis) as) =
      worth value wallet
        (run (step exp value crates float) (boot Body redis) as).server.validShares.received := by
  induction as using List.reverseRecOn with
  | nil => rfl
  | append_singleton pre a ih =>
    rw [engineOver, expand_concat, run_concat, received_step, worth_append, receivedOver,
      List.map_append, List.sum_append]
    rw [engineOver, receivedOver] at ih
    rw [ih]
    congr 1
    cases a with
    | server action => rfl
    | receive now =>
      simp only [engineActs, taken]
      cases nextShare (run (step exp value crates float) (boot Body redis) pre) with
      | none => rfl
      | some m => rfl
    | flush now order ok => simp [engineActs, taken, received, worth]

variable {value} in
theorem positive_engineOver (redis : Redis R) {as : List (Action Body R)}
    (hpos : ∀ a ∈ as, GivesDifficulty value a) :
    ∀ b ∈ engineOver exp value crates float (boot Body redis) as, Positive b := by
  have hsound := sound_run exp crates float redis hpos
  induction as using List.reverseRecOn with
  | nil => simp [engineOver, expand]
  | append_singleton pre a ih =>
    rw [engineOver, expand_concat]
    refine List.forall_mem_append.mpr ⟨?_, ?_⟩
    · apply ih (fun b hb => hpos b (List.mem_append_left _ hb))
      exact fun p hp => hsound p (hp.trans (List.prefix_append _ _))
    · have hhere := hsound pre (List.prefix_append _ _)
      intro b hb
      cases a with
      | server action => cases hb
      | receive now =>
        obtain ⟨m, hm, rfl⟩ := Option.map_eq_some_iff.mp (Option.mem_toList.mp hb)
        exact hhere.next hm
      | flush now order ok =>
        rw [List.mem_singleton.mp hb]
        trivial

/-- What is accepted has been received, is queued or was dropped. -/
theorem accepted_worth (wallet : Str) (redis : Redis R) (as : List (Action Body R)) :
    worth value wallet (acceptedOver exp value crates float (boot Body redis) as) =
      worth value wallet
          (run (step exp value crates float) (boot Body redis) as).server.validShares.received +
        worth value wallet
          (run (step exp value crates float) (boot Body redis) as).server.validShares.queue +
        worth value wallet (droppedOver exp value crates float (boot Body redis) as) := by
  rw [← worth_append, ← worth_append]
  exact ((accepted_run exp value crates float redis as).map _).sum_eq.symm

theorem engine_eq (redis : Redis R) (as : List (Action Body R)) :
    (run (step exp value crates float) (boot Body redis) as).engine =
      run (Telemetry.step exp) (Telemetry.boot redis)
        (engineOver exp value crates float (boot Body redis) as) := by
  have hexpands : Expands (step exp value crates float) (Telemetry.step exp)
      (@State.engine Body R) (engineActs value) := engine_step exp value crates float
  exact hexpands.run_eq _ as

variable [IsStrictOrderedRing R]

/-- What is received is in the ledger, with the engine or was lost in a flush. -/
theorem received_balance (wallet : Str) (redis : Redis R) {as : List (Action Body R)}
    (hpos : ∀ a ∈ as, GivesDifficulty value a) :
    let state := run (step exp value crates float) (boot Body redis) as
    ledger state.engine.redis wallet + unflushed wallet state.engine +
        lostOver wallet exp (Telemetry.boot redis)
          (engineOver exp value crates float (boot Body redis) as) =
      ledger redis wallet + worth value wallet state.server.validShares.received := by
  intro state
  have hbooks := boot_balance exp wallet redis
    (positive_engineOver exp crates float redis hpos)
  rwa [← engine_eq, received_worth] at hbooks

/-- What the accepted shares of a wallet are worth is in its ledger, with the
engine or in the channel, was lost in a flush or was dropped on the way. -/
theorem shares_accounted (wallet : Str) (redis : Redis R) {as : List (Action Body R)}
    (hpos : ∀ a ∈ as, GivesDifficulty value a) :
    let state := run (step exp value crates float) (boot Body redis) as
    ledger state.engine.redis wallet + unflushed wallet state.engine +
        worth value wallet state.server.validShares.queue +
        lostOver wallet exp (Telemetry.boot redis)
          (engineOver exp value crates float (boot Body redis) as) +
        worth value wallet (droppedOver exp value crates float (boot Body redis) as) =
      ledger redis wallet +
        worth value wallet (acceptedOver exp value crates float (boot Body redis) as) := by
  intro state
  have hbooks := received_balance exp value crates float wallet redis hpos
  have haccepted := accepted_worth exp value crates float wallet redis as
  simp only at hbooks
  rw [haccepted]
  linarith

end Books

section Counter

variable (exp : R → R) (value : Float → R) (crates : Crates) (float : Float → Str)

/-- The sum of one number over the messages of a worker. -/
def tally (f : Message → Nat) (worker : Str) (messages : List Message) : Nat :=
  ((messages.filter (fun m => m.1 = worker)).map f).sum

/-- `difficulty as u64` -/
def castU64 (m : Message) : Nat := m.2.toUInt64.toNat

theorem tally_append (f : Message → Nat) (worker : Str) (ms ns : List Message) :
    tally f worker (ms ++ ns) = tally f worker ms + tally f worker ns := by
  rw [tally, List.filter_append, List.map_append, List.sum_append]
  rfl

theorem incBy_toList (counter : Str → UInt64) (worker : Str) (f : Message → Nat) (m : Message) :
    incBy counter m.1 (UInt64.ofNat (f m)) worker =
      counter worker + UInt64.ofNat (tally f worker [m]) := by
  by_cases hw : m.1 = worker
  · subst hw
    simp [incBy, tally]
  · simp [incBy, tally, hw, Function.update_of_ne (Ne.symm hw)]

/-- The server counts an accepted share once, the engine counts its difficulty. -/
theorem counter_step (state : State Body R) (a : Action Body R) (worker : Str) :
    (step exp value crates float state a).workerShares worker =
      state.workerShares worker +
        UInt64.ofNat (tally (fun _ => 1) worker (accepted crates float state a).toList +
          tally castU64 worker (taken state a)) := by
  cases a with
  | server action =>
    cases action with
    | submit index params =>
      simp only [step, serve, accepted, taken]
      cases acceptedShare crates float state.server (.submit index params) with
      | none => simp [tally]
      | some m => exact incBy_toList state.workerShares worker (fun _ => 1) m
    | _ => simp [step, serve, accepted, taken, acceptedShare, Server.verdictOf, tally]
  | receive now =>
    simp only [step, receive]
    split
    · rename_i hnone
      simp [hnone, accepted, taken, tally]
    · rename_i name difficulty hsome
      have hone := incBy_toList state.workerShares worker castU64 (name, difficulty)
      simpa [hsome, accepted, taken, castU64, tally] using hone
  | flush now order ok => simp [step, accepted, taken, tally]

theorem counter_run (redis : Redis R) (as : List (Action Body R)) (worker : Str) :
    (run (step exp value crates float) (boot Body redis) as).workerShares worker =
      UInt64.ofNat
        (tally (fun _ => 1) worker (acceptedOver exp value crates float (boot Body redis) as) +
          tally castU64 worker
            (run (step exp value crates float) (boot Body redis) as).server.validShares.received) := by
  induction as using List.reverseRecOn with
  | nil => rfl
  | append_singleton pre a ih =>
    have haccepted : acceptedOver exp value crates float (boot Body redis) (pre ++ [a]) =
        acceptedOver exp value crates float (boot Body redis) pre ++
          (accepted crates float (run (step exp value crates float) (boot Body redis) pre) a).toList :=
      expand_concat _ _ _ _
    rw [run_concat, counter_step, ih, received_step, haccepted, tally_append, tally_append,
      ← UInt64.ofNat_add]
    congr 1
    omega

/-- An accepted share raises the counter by one, and once the engine has it by
its difficulty on top. -/
theorem worker_shares_counted (redis : Redis R) (as : List (Action Body R)) (worker : Str) :
    let state := run (step exp value crates float) (boot Body redis) as
    state.workerShares worker +
        UInt64.ofNat (tally castU64 worker (state.server.validShares.queue ++
          droppedOver exp value crates float (boot Body redis) as)) =
      UInt64.ofNat (tally (fun m => 1 + castU64 m) worker
        (acceptedOver exp value crates float (boot Body redis) as)) := by
  intro state
  have hperm := accepted_run exp value crates float redis as
  have hcast : tally castU64 worker (acceptedOver exp value crates float (boot Body redis) as) =
      tally castU64 worker state.server.validShares.received +
        tally castU64 worker (state.server.validShares.queue ++
          droppedOver exp value crates float (boot Body redis) as) := by
    rw [← tally_append, ← List.append_assoc]
    exact ((hperm.filter _).map castU64).sum_eq.symm
  have hboth : ∀ messages, tally (fun m => 1 + castU64 m) worker messages =
      tally (fun _ => 1) worker messages + tally castU64 worker messages :=
    fun messages => List.sum_map_add
  rw [counter_run, ← UInt64.ofNat_add, hboth, hcast, Nat.add_assoc]

end Counter

section Examples

open Lib.Binary64 StratumPool.Server

noncomputable def realOf (x : Float) : ℝ := toRat x

theorem realOf_one : realOf ((1 : UInt64).toFloat) = 1 := by
  have hunit : toRat ((1 : UInt64).toFloat) = 1 := toRat_of_units (n := 1) (by decide +kernel)
  rw [realOf, hunit, Rat.cast_one]

/-- One share from its submission to the ledger. -/
def creditedRun : List (Action Unit ℝ) :=
  [.server (.jobs (.newBlock template)), .server (.jobs (.advance 0)), .server (.connect 1 1),
    .server (.submit 0 (shareParams (lit "7"))), .receive 0, .flush 1000 (.asStored _) true]

theorem credited_run_accounted :
    let start := boot Unit emptyRedis
    let state := run (step Real.exp realOf tameCrates (fun _ => [])) start creditedRun
    ledger state.engine.redis (lit "kaspa:qz0") + unflushed (lit "kaspa:qz0") state.engine +
        worth realOf (lit "kaspa:qz0") state.server.validShares.queue +
        lostOver (lit "kaspa:qz0") Real.exp (Telemetry.boot emptyRedis)
          (engineOver Real.exp realOf tameCrates (fun _ => []) start creditedRun) +
        worth realOf (lit "kaspa:qz0")
          (droppedOver Real.exp realOf tameCrates (fun _ => []) start creditedRun) =
      ledger emptyRedis (lit "kaspa:qz0") +
        worth realOf (lit "kaspa:qz0")
          (acceptedOver Real.exp realOf tameCrates (fun _ => []) start creditedRun) := by
  apply shares_accounted
  have hone : (0 : ℝ) < realOf ((1 : UInt64).toFloat) := by
    rw [realOf_one]
    exact one_pos
  intro a ha
  simp only [creditedRun, List.mem_cons, List.not_mem_nil, or_false] at ha
  obtain rfl | rfl | rfl | rfl | rfl | rfl := ha
  · trivial
  · trivial
  · exact hone
  · trivial
  · trivial
  · trivial

end Examples

end StratumPool.Accounting
