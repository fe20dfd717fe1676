import StratumPool.Lib.Channel
import StratumPool.Lib.Runs
import StratumPool.Submit

namespace StratumPool.Server

open Lib Lib.Runs StratumPool.Text StratumPool.Json StratumPool.Kaspa StratumPool.Jobs
  StratumPool.Submit

/-- A worker connection past its handshake. -/
structure Connection where
  extranonce1 : Str
  currentDiff : UInt64
  shareCount : Nat
  currentWorkerName : Str

/-- The channels and the connections around the job manager. `evaluated` lists
the work that was verified, `credits` the messages that entered the accounting
channel with the work each is for. -/
structure State (Body : Type) where
  jobs : JobManager Body
  connections : List Connection
  validShares : Channel (Str × Float)
  blockSubmits : Channel (RpcBlock Body)
  blockEvents : List (Value Float)
  evaluated : List ProofOfWork
  credits : List (ProofOfWork × (Str × Float))

def boot (Body : Type) : State Body :=
  ⟨Jobs.new Body, [], .empty _ 10000, .empty _ 100, [], [], []⟩

/-- What happens to the server, in any order. A retarget may set any
difficulty. -/
inductive Action (Body : Type) where
  | jobs (action : Jobs.Action Body)
  | connect (connId currentDiff : UInt64)
  | disconnect (index : Nat)
  | retarget (index : Nat) (newDiff : UInt64)
  | submit (index : Nat) (params : Option (List (Value Float)))
  | receiveShare
  | closeShares
  | forwardBlock

section Steps

variable {Body : Type} (crates : Crates) (float : Float → Str)

def setConnection (state : State Body) (index : Nat) (conn : Connection) : State Body :=
  { state with connections := state.connections.set index conn }

def retarget (state : State Body) (index : Nat) (newDiff : UInt64) : State Body :=
  match state.connections[index]? with
  | none => state
  | some conn => setConnection state index { conn with currentDiff := newDiff, shareCount := 0 }

/-- What one submission does once its parameters are read. It is one step: the
map keeps the job's entry locked from the lookup to the last send. -/
def settleSubmission (state : State Body) (index : Nat) (conn : Connection)
    (submission : Submission) : State Body :=
  let named := { conn with currentWorkerName := submission.worker }
  let message := (submission.worker, conn.currentDiff.toFloat)
  match judge crates state.jobs.activeJobs conn.currentDiff submission with
  | .stale => setConnection state index named
  | .networkBlock header rpcBlock =>
      { setConnection state index named with
        blockEvents := state.blockEvents ++ [blockEvent crates header submission conn.currentDiff]
        blockSubmits := state.blockSubmits.trySend (withNonce rpcBlock submission.nonce)
        evaluated := state.evaluated ++ [powOf crates header submission.nonce] }
  | .share header =>
      { setConnection state index { named with shareCount := conn.shareCount + 1 } with
        validShares := state.validShares.trySend message
        evaluated := state.evaluated ++ [powOf crates header submission.nonce]
        credits := state.credits ++
          if state.validShares.accepts then [(powOf crates header submission.nonce, message)]
          else [] }
  | .invalid header =>
      { setConnection state index named with
        evaluated := state.evaluated ++ [powOf crates header submission.nonce] }

def submit (state : State Body) (index : Nat) (params : Option (List (Value Float))) : State Body :=
  match state.connections[index]? with
  | none => state
  | some conn =>
      match readSubmission float conn.extranonce1 params with
      | none => state
      | some submission => settleSubmission crates state index conn submission

def step (state : State Body) : Action Body → State Body
  | .jobs action => { state with jobs := Jobs.step crates state.jobs action }
  | .connect connId currentDiff =>
      { state with connections := state.connections ++ [⟨lowHex connId, currentDiff, 0, []⟩] }
  | .disconnect index => { state with connections := state.connections.eraseIdx index }
  | .retarget index newDiff => retarget state index newDiff
  | .submit index params => submit crates float state index params
  | .receiveShare => { state with validShares := state.validShares.recv }
  | .closeShares => { state with validShares := state.validShares.close }
  | .forwardBlock => { state with blockSubmits := state.blockSubmits.recv }

end Steps

section Outcomes

variable {Body : Type} (crates : Crates) (float : Float → Str)

/-- What a step judges: the connection, its submission and the verdict. -/
def verdictOf (state : State Body) : Action Body → Option (Connection × Submission × Verdict Body)
  | .submit index params => do
      let conn ← state.connections[index]?
      let submission ← readSubmission float conn.extranonce1 params
      return (conn, submission, judge crates state.jobs.activeJobs conn.currentDiff submission)
  | _ => none

/-- The message of a share that a step counts as accepted. -/
def acceptedShare (state : State Body) (a : Action Body) : Option (Str × Float) :=
  match verdictOf crates float state a with
  | some (conn, submission, .share _) => some (submission.worker, conn.currentDiff.toFloat)
  | _ => none

/-- The block a step finds, with the nonce that wins, and the event it records. -/
def foundBlock (state : State Body) (a : Action Body) : Option (RpcBlock Body × Value Float) :=
  match verdictOf crates float state a with
  | some (conn, submission, .networkBlock header rpcBlock) =>
      some (withNonce rpcBlock submission.nonce, blockEvent crates header submission conn.currentDiff)
  | _ => none

theorem verdictOf_submit {state : State Body} {index : Nat}
    {params : Option (List (Value Float))} {conn : Connection} {submission : Submission}
    (hconn : state.connections[index]? = some conn)
    (hread : readSubmission float conn.extranonce1 params = some submission) :
    verdictOf crates float state (.submit index params) =
      some (conn, submission, judge crates state.jobs.activeJobs conn.currentDiff submission) := by
  simp [verdictOf, hconn, hread]

/-- A submission is dropped or judged. -/
theorem submit_cases (state : State Body) (index : Nat) (params : Option (List (Value Float))) :
    (verdictOf crates float state (.submit index params) = none ∧
        submit crates float state index params = state) ∨
      ∃ conn submission, state.connections[index]? = some conn ∧
        verdictOf crates float state (.submit index params) =
          some (conn, submission, judge crates state.jobs.activeJobs conn.currentDiff submission) ∧
        submit crates float state index params =
          settleSubmission crates state index conn submission := by
  rw [submit]
  cases hconn : state.connections[index]? with
  | none => exact .inl ⟨by simp [verdictOf, hconn], rfl⟩
  | some conn =>
    cases hread : readSubmission float conn.extranonce1 params with
    | none => exact .inl ⟨by simp [verdictOf, hconn, hread], by simp only [hread]⟩
    | some submission =>
      refine .inr ⟨conn, submission, rfl, verdictOf_submit crates float hconn hread, ?_⟩
      simp only [hread]

/-- What one submission does to the channels, the events and the count of its
connection, by its verdict. -/
theorem submit_outcome (state : State Body) (index : Nat)
    (params : Option (List (Value Float))) :
    let a : Action Body := .submit index params
    (step crates float state a).validShares =
        (acceptedShare crates float state a).elim state.validShares state.validShares.trySend ∧
      (step crates float state a).blockSubmits =
        (foundBlock crates float state a).elim state.blockSubmits
          (fun found => state.blockSubmits.trySend found.1) ∧
      (step crates float state a).blockEvents =
        state.blockEvents ++ ((foundBlock crates float state a).map Prod.snd).toList ∧
      ∀ conn, state.connections[index]? = some conn →
        ∃ conn', (step crates float state a).connections[index]? = some conn' ∧
          conn'.currentDiff = conn.currentDiff ∧
          conn'.shareCount = conn.shareCount + (acceptedShare crates float state a).toList.length := by
  simp only [step, acceptedShare, foundBlock]
  obtain ⟨hverdict, hsubmit⟩ | ⟨conn, submission, hc, hverdict, hsubmit⟩ :=
    submit_cases crates float state index params
  · simpa [hverdict, hsubmit] using fun conn hc => ⟨conn, hc, rfl, rfl⟩
  · have hset : ∀ conn' : Connection, (state.connections.set index conn')[index]? = some conn' := by
      intro conn'
      obtain ⟨hi, _⟩ := List.getElem?_eq_some_iff.mp hc
      simp [hi]
    rw [hverdict, hsubmit, settleSubmission]
    cases judge crates state.jobs.activeJobs conn.currentDiff submission with
    | stale => simp [setConnection, hset, hc]
    | invalid header => simp [setConnection, hset, hc]
    | share header => simp [setConnection, hset, hc]
    | networkBlock header rpcBlock => simp [setConnection, hset, hc]

/-- A share is counted by vardiff, and the accounting channel gets its message
where it has room: the worker and the difficulty of the connection. -/
structure CountsShare (state after : State Body) (index : Nat) (conn : Connection)
    (submission : Submission) : Prop where
  counted : ∃ conn', after.connections[index]? = some conn' ∧
    conn'.shareCount = conn.shareCount + 1
  sent : after.validShares.sent = state.validShares.sent ++
    if state.validShares.accepts then [(submission.worker, conn.currentDiff.toFloat)] else []

/-- A found block is queued for the node with the nonce that won it, where there
is room, and its event goes to the oracle's buffer. -/
structure PassesBlock (state after : State Body) (conn : Connection) (submission : Submission)
    (header : Header) (rpcBlock : RpcBlock Body) : Prop where
  queued : after.blockSubmits.sent = state.blockSubmits.sent ++
    if state.blockSubmits.accepts then [withNonce rpcBlock submission.nonce] else []
  recorded : after.blockEvents =
    state.blockEvents ++ [blockEvent crates header submission conn.currentDiff]

section Judged

variable {state : State Body} {index : Nat} {params : Option (List (Value Float))}
  {conn : Connection} {submission : Submission} {header : Header} {rpcBlock : RpcBlock Body}

theorem counts_share (hconn : state.connections[index]? = some conn)
    (hread : readSubmission float conn.extranonce1 params = some submission)
    (h : judge crates state.jobs.activeJobs conn.currentDiff submission = .share header) :
    CountsShare state (step crates float state (.submit index params)) index conn submission := by
  have hshare : acceptedShare crates float state (.submit index params) =
      some (submission.worker, conn.currentDiff.toFloat) := by
    rw [acceptedShare, verdictOf_submit crates float hconn hread, h]
  obtain ⟨hchannel, -, -, hconns⟩ := submit_outcome crates float state index params
  obtain ⟨conn', hconn', -, hcount⟩ := hconns conn hconn
  rw [hshare] at hchannel hcount
  exact ⟨⟨conn', hconn', hcount⟩, by rw [hchannel, Option.elim_some, Channel.sent_trySend]⟩

theorem passes_block (hconn : state.connections[index]? = some conn)
    (hread : readSubmission float conn.extranonce1 params = some submission)
    (h : judge crates state.jobs.activeJobs conn.currentDiff submission =
      .networkBlock header rpcBlock) :
    PassesBlock crates state (step crates float state (.submit index params)) conn submission
      header rpcBlock := by
  have hfound : foundBlock crates float state (.submit index params) =
      some (withNonce rpcBlock submission.nonce,
        blockEvent crates header submission conn.currentDiff) := by
    rw [foundBlock, verdictOf_submit crates float hconn hread, h]
  obtain ⟨-, hchannel, hevents, -⟩ := submit_outcome crates float state index params
  rw [hfound] at hchannel hevents
  exact ⟨by rw [hchannel, Option.elim_some, Channel.sent_trySend], hevents⟩

theorem evaluated_judged (hconn : state.connections[index]? = some conn)
    (hread : readSubmission float conn.extranonce1 params = some submission) :
    (step crates float state (.submit index params)).evaluated =
      state.evaluated ++ ((state.jobs.activeJobs.lookup submission.jobId).map (fun entry =>
        powOf crates entry.1 submission.nonce)).toList := by
  have hverified : (step crates float state (.submit index params)).evaluated =
      state.evaluated ++ ((judge crates state.jobs.activeJobs conn.currentDiff submission).header.map
        (fun header => powOf crates header submission.nonce)).toList := by
    simp only [step, submit, hconn, hread, settleSubmission]
    cases judge crates state.jobs.activeJobs conn.currentDiff submission <;>
      simp [Verdict.header, setConnection]
  rw [hverified, header_judge, Option.map_map]
  rfl

end Judged

/-- What any step does to the job manager, to the two channels and to the events
of found blocks. -/
structure Outcome (state after : State Body) (a : Action Body) : Prop where
  jobs : after.jobs =
    match a with
    | .jobs action => Jobs.step crates state.jobs action
    | _ => state.jobs
  validShares : after.validShares =
    match a with
    | .receiveShare => state.validShares.recv
    | .closeShares => state.validShares.close
    | _ => (acceptedShare crates float state a).elim state.validShares state.validShares.trySend
  blockSubmits : after.blockSubmits =
    match a with
    | .forwardBlock => state.blockSubmits.recv
    | _ => (foundBlock crates float state a).elim state.blockSubmits
        (fun found => state.blockSubmits.trySend found.1)
  blockEvents : after.blockEvents =
    state.blockEvents ++ ((foundBlock crates float state a).map Prod.snd).toList

theorem jobs_submit (state : State Body) (index : Nat) (params : Option (List (Value Float))) :
    (submit crates float state index params).jobs = state.jobs := by
  obtain ⟨-, hsubmit⟩ | ⟨conn, submission, -, -, hsubmit⟩ :=
    submit_cases crates float state index params
  · rw [hsubmit]
  · rw [hsubmit, settleSubmission]
    split <;> rfl

theorem step_outcome (state : State Body) (a : Action Body) :
    Outcome crates float state (step crates float state a) a := by
  cases a with
  | submit index params =>
    obtain ⟨hshares, hblocks, hevents, _⟩ := submit_outcome crates float state index params
    exact ⟨jobs_submit crates float state index params, hshares, hblocks, hevents⟩
  | retarget index newDiff =>
    simp only [step, retarget]
    split
    · exact ⟨rfl, rfl, rfl, (List.append_nil _).symm⟩
    · exact ⟨rfl, rfl, rfl, (List.append_nil _).symm⟩
  | _ => exact ⟨rfl, rfl, rfl, (List.append_nil _).symm⟩

end Outcomes

section Credits

variable {Body : Type} (crates : Crates) (float : Float → Str)

/-- The messages of the accounting channel stem from verified work, one for
each time it was verified at most. -/
structure CreditsTraced (state : State Body) : Prop where
  traced : (state.credits.map Prod.fst).Sublist state.evaluated
  sent : state.validShares.sent = state.credits.map Prod.snd

theorem CreditsTraced.evaluate {state state' : State Body} (h : CreditsTraced state)
    (pow : ProofOfWork) (he : state'.evaluated = state.evaluated ++ [pow])
    (hc : state'.credits = state.credits) (hs : state'.validShares = state.validShares) :
    CreditsTraced state' := by
  constructor
  · rw [hc, he]
    exact h.traced.trans (List.sublist_append_left _ _)
  · rw [hs, hc]
    exact h.sent

theorem creditsTraced_settle {state : State Body} (h : CreditsTraced state) (index : Nat)
    (conn : Connection) (submission : Submission) :
    CreditsTraced (settleSubmission crates state index conn submission) := by
  rw [settleSubmission]
  cases judge crates state.jobs.activeJobs conn.currentDiff submission with
  | stale => exact ⟨h.traced, h.sent⟩
  | networkBlock header rpcBlock => exact h.evaluate _ rfl rfl rfl
  | invalid header => exact h.evaluate _ rfl rfl rfl
  | share header =>
    constructor
    · simp only [List.map_append]
      apply h.traced.append
      cases state.validShares.accepts <;> simp
    · simp only [Channel.sent_trySend, List.map_append, h.sent]
      cases state.validShares.accepts <;> simp

theorem creditsTraced_step {state : State Body} (h : CreditsTraced state) (a : Action Body) :
    CreditsTraced (step crates float state a) := by
  cases a with
  | submit index params =>
    rw [step]
    obtain ⟨-, hsubmit⟩ | ⟨conn, submission, -, -, hsubmit⟩ :=
      submit_cases crates float state index params
    · rwa [hsubmit]
    · rw [hsubmit]
      exact creditsTraced_settle crates h index conn submission
  | retarget index newDiff =>
    simp only [step, retarget]
    split
    · exact h
    · exact ⟨h.traced, h.sent⟩
  | receiveShare => exact ⟨h.traced, by simpa [step] using h.sent⟩
  | closeShares => exact ⟨h.traced, by simpa [step] using h.sent⟩
  | jobs action => exact ⟨h.traced, h.sent⟩
  | connect connId currentDiff => exact ⟨h.traced, h.sent⟩
  | disconnect index => exact ⟨h.traced, h.sent⟩
  | forwardBlock => exact ⟨h.traced, h.sent⟩

theorem creditsTraced_run (as : List (Action Body)) :
    Always (step crates float) CreditsTraced (boot Body) as :=
  always_of_invariant ⟨List.Sublist.refl _, rfl⟩ (fun _ a h => creditsTraced_step crates float h a) as

/-- The work a step brings into the accounting channel and the message of it:
of a submission that is no network block, meets the pool target and finds room,
its worker and the difficulty its connection has. -/
def creditedWork (state : State Body) : Action Body → Option (ProofOfWork × (Str × Float))
  | .submit index params => do
      let conn ← state.connections[index]?
      let submission ← readSubmission float conn.extranonce1 params
      match judge crates state.jobs.activeJobs conn.currentDiff submission with
      | .share header =>
          if state.validShares.accepts then
            some (powOf crates header submission.nonce,
              (submission.worker, conn.currentDiff.toFloat))
          else none
      | _ => none
  | _ => none

def creditedOver (state : State Body) :
    List (Action Body) → List (ProofOfWork × (Str × Float))
  | [] => []
  | a :: as => (creditedWork crates float state a).toList ++ creditedOver (step crates float state a) as

theorem credits_step (state : State Body) (a : Action Body) :
    (step crates float state a).credits =
      state.credits ++ (creditedWork crates float state a).toList := by
  cases a with
  | submit index params =>
    simp only [step, submit, creditedWork]
    cases state.connections[index]? with
    | none => simp
    | some conn =>
      simp only [bind, Option.bind_some]
      cases readSubmission float conn.extranonce1 params with
      | none => simp
      | some submission =>
        simp only [Option.bind_some, settleSubmission]
        cases judge crates state.jobs.activeJobs conn.currentDiff submission with
        | stale => simp [setConnection]
        | networkBlock header rpcBlock => simp [setConnection]
        | invalid header => simp [setConnection]
        | share header => cases state.validShares.accepts <;> simp
  | retarget index newDiff =>
    simp only [step, retarget, creditedWork]
    split <;> simp [setConnection]
  | jobs action => simp [step, creditedWork]
  | connect connId currentDiff => simp [step, creditedWork]
  | disconnect index => simp [step, creditedWork]
  | receiveShare => simp [step, creditedWork]
  | closeShares => simp [step, creditedWork]
  | forwardBlock => simp [step, creditedWork]

theorem credits_run (state : State Body) (as : List (Action Body)) :
    (run (step crates float) state as).credits =
      state.credits ++ creditedOver crates float state as := by
  induction as generalizing state with
  | nil => simp [creditedOver]
  | cons a as ih => rw [run_cons, ih, credits_step, creditedOver, List.append_assoc]

/-- How many messages a proof of work has caused. -/
def creditsFor (state : State Body) (pow : ProofOfWork) : Nat :=
  (state.credits.map Prod.fst).count pow

def serve (as : List (Action Body)) : State Body := run (step crates float) (boot Body) as

/-- The accounting channel carries one message for each submission that is
credited and no others: its worker with the difficulty of its connection. For
one proof of work these are no more than the times it was verified. -/
theorem credits_match_submissions (as : List (Action Body)) :
    (serve crates float as).validShares.sent =
        (serve crates float as).credits.map Prod.snd ∧
      (serve crates float as).credits = creditedOver crates float (boot Body) as ∧
      ∀ pow, creditsFor (serve crates float as) pow =
          ((creditedOver crates float (boot Body) as).map Prod.fst).count pow ∧
        creditsFor (serve crates float as) pow ≤ (serve crates float as).evaluated.count pow := by
  have htraced := (creditsTraced_run crates float as).last
  have hcredits : (serve crates float as).credits = creditedOver crates float (boot Body) as := by
    rw [serve, credits_run]
    rfl
  refine ⟨htraced.sent, hcredits, fun pow => ⟨?_, htraced.traced.count_le pow⟩⟩
  rw [creditsFor, hcredits]

end Credits

section Examples

/-- Crates under which every template converts and every hash is the largest
one, which only the easiest pool target admits. -/
def tameCrates : Crates :=
  { hashFromStr := fun _ => some zeroHash
    uint192FromHex := fun _ => some 0
    compressParents := some
    headerHash := fun _ => zeroHash
    hashOverrideNonceTime := fun _ _ _ => zeroHash
    checkPow := fun _ _ => (false, Fin.last _) }

def template : RpcBlock Unit :=
  ⟨some ⟨1, [], [], [], [], 0, 0, 0, 0, [], 0, [], []⟩, ()⟩

def shareParams (nonce : Str) : Option (List (Value Float)) :=
  some [.string (lit "kaspa:qz0.rig"), .string (lit "0001"), .string nonce]

/-- One share submitted twice, spelled in two ways. -/
def replay : List (Action Unit) :=
  [.jobs (.newBlock template), .jobs (.advance 0), .connect 1 1, .submit 0 (shareParams (lit "7")),
    .submit 0 (shareParams (lit "0x07"))]

theorem replayed_share_credited_twice :
    ¬ ∀ crates : Crates, ∀ float : Float → Str, ∀ as : List (Action Unit), ∀ pow,
      creditsFor (serve crates float as) pow ≤ 1 := by
  intro h
  have hreplay := h tameCrates (fun _ => []) replay ⟨zeroHash, 0, 0x0001000000000007⟩
  have htwo : creditsFor (serve tameCrates (fun _ => []) replay) ⟨zeroHash, 0, 0x0001000000000007⟩ =
      2 := by decide +kernel
  omega

end Examples

end StratumPool.Server
