import StratumPool.Server

namespace StratumPool.Crossing

open Lib.Runs StratumPool.Text StratumPool.Json StratumPool.Kaspa StratumPool.DiffEngine
  StratumPool.Jobs StratumPool.Submit StratumPool.Server

/-- A `mining.submit` on its way, with the number of difficulties its miner had
received when it sent it. -/
structure Flight where
  params : Option (List (Value Float))
  seen : Nat

/-- The server and the two directions of its first connection. `written` lists
every `mining.set_difficulty` the server wrote to it, of which the miner has
received the first `seen`. -/
structure State (Body : Type) where
  server : Server.State Body
  written : List UInt64
  seen : Nat
  toServer : List Flight

/-- After the handshake, which ends with the first difficulty. -/
def greet {Body : Type} (server : Server.State Body) (conn : Connection) : State Body :=
  ⟨server, [conn.currentDiff], 0, []⟩

inductive Action (Body : Type) where
  | elsewhere (action : Server.Action Body)
  | retarget (newDiff : UInt64)
  | learn
  | send (params : Option (List (Value Float)))
  | arrive

section Steps

variable {Body : Type} (crates : Crates) (float : Float → Str)

/-- A step of the server that is none of the first connection's. -/
def elsewhere : Server.Action Body → Server.Action Body
  | .disconnect index => .disconnect (index + 1)
  | .retarget index newDiff => .retarget (index + 1) newDiff
  | .submit index params => .submit (index + 1) params
  | action => action

/-- What the server writes when vardiff picks `newDiff`: nothing if that is the
difficulty the connection has. -/
def announced (server : Server.State Body) (newDiff : UInt64) : List UInt64 :=
  match server.connections[0]? with
  | none => []
  | some conn => if newDiff = conn.currentDiff then [] else [newDiff]

def step (state : State Body) : Action Body → State Body
  | .elsewhere action =>
      { state with server := Server.step crates float state.server (elsewhere action) }
  | .retarget newDiff =>
      { state with
        server := Server.step crates float state.server (.retarget 0 newDiff)
        written := state.written ++ announced state.server newDiff }
  | .learn => { state with seen := min (state.seen + 1) state.written.length }
  | .send params => { state with toServer := state.toServer ++ [⟨params, state.seen⟩] }
  | .arrive =>
      match state.toServer with
      | [] => state
      | flight :: rest =>
          { state with
            server := Server.step crates float state.server (.submit 0 flight.params)
            toServer := rest }

/-- From `before` to `after` a submission for the job of `header` and `rpcBlock`
is credited as a share or its block is submitted. -/
def Accepted (before after : Server.State Body) (conn : Connection) (submission : Submission)
    (header : Header) (rpcBlock : RpcBlock Body) : Prop :=
  CountsShare before after 0 conn submission ∨
    PassesBlock crates before after conn submission header rpcBlock

/-- The last difficulty the miner had received when it sent the submission. -/
def difficultyKnown (state : State Body) (flight : Flight) : List UInt64 :=
  (state.written.take flight.seen).getLast?.toList

/-- The difficulty the miner knew when it sent the submission, and the last one
that the server has written by now. -/
def difficultiesThen (state : State Body) (flight : Flight) : List UInt64 :=
  difficultyKnown state flight ++ state.written.getLast?.toList

def Meets (header : Header) (nonce : UInt64) (difficulty : UInt64) : Prop :=
  (verifyShare crates header nonce difficulty.toFloat).1 = true

/-- What the server does with the oldest submission in flight if it names an
active job and its hash meets the difficulties `known` of it. -/
def Honoured (known : State Body → Flight → List UInt64) (state : State Body) : Prop :=
  ∀ flight rest, state.toServer = flight :: rest → 0 < flight.seen →
    ∀ conn submission header rpcBlock,
      state.server.connections[0]? = some conn →
      readSubmission float conn.extranonce1 flight.params = some submission →
      state.server.jobs.activeJobs.lookup submission.jobId = some (header, rpcBlock) →
      (∀ difficulty ∈ known state flight, Meets crates header submission.nonce difficulty) →
      Accepted crates state.server (step crates float state .arrive).server conn submission
        header rpcBlock

/-- The last difficulty the server has written is the one it judges by. -/
def InForce (state : State Body) : Prop :=
  ∃ conn, state.server.connections[0]? = some conn ∧
    state.written.getLast? = some conn.currentDiff

end Steps

section Runs

variable {Body : Type} (crates : Crates) (float : Float → Str)

theorem accepted_of_meets {server : Server.State Body} {params : Option (List (Value Float))}
    {conn : Connection} {submission : Submission} {header : Header} {rpcBlock : RpcBlock Body}
    (hconn : server.connections[0]? = some conn)
    (hread : readSubmission float conn.extranonce1 params = some submission)
    (hjob : server.jobs.activeJobs.lookup submission.jobId = some (header, rpcBlock))
    (hmeets : Meets crates header submission.nonce conn.currentDiff) :
    Accepted crates server (Server.step crates float server (.submit 0 params)) conn submission
      header rpcBlock := by
  rw [Meets] at hmeets
  cases hblock : (verifyShare crates header submission.nonce conn.currentDiff.toFloat).2 with
  | true =>
    have hjudge : judge crates server.jobs.activeJobs conn.currentDiff submission =
        .networkBlock header rpcBlock := by
      simp [judge, hjob, hblock]
    exact .inr (passes_block crates float hconn hread hjudge)
  | false =>
    have hjudge : judge crates server.jobs.activeJobs conn.currentDiff submission =
        .share header := by
      simp [judge, hjob, hblock, hmeets]
    exact .inl (counts_share crates float hconn hread hjudge)

/-- The last difficulty written is the connection's own, and no submission was
sent with knowledge of one that is still to be written. -/
structure Inv (state : State Body) : Prop where
  current : InForce state
  learned : state.seen ≤ state.written.length
  flights : ∀ flight ∈ state.toServer, flight.seen ≤ state.written.length

theorem inv_greet {server : Server.State Body} {conn : Connection}
    (h : server.connections[0]? = some conn) : Inv (greet server conn) :=
  ⟨⟨conn, h, rfl⟩, Nat.zero_le _, by simp [greet]⟩

theorem first_settle {server : Server.State Body} (index : Nat) (conn : Connection)
    (submission : Submission) :
    (settleSubmission crates server (index + 1) conn submission).connections[0]? =
      server.connections[0]? := by
  rw [settleSubmission]
  cases judge crates server.jobs.activeJobs conn.currentDiff submission <;> simp [setConnection]

theorem first_elsewhere {server : Server.State Body} {conn : Connection}
    (h : server.connections[0]? = some conn) (a : Server.Action Body) :
    (Server.step crates float server (elsewhere a)).connections[0]? = some conn := by
  cases a with
  | submit index params =>
    rw [elsewhere, Server.step]
    obtain ⟨-, hsubmit⟩ | ⟨other, submission, -, -, hsubmit⟩ :=
      submit_cases crates float server (index + 1) params
    · rwa [hsubmit]
    · rwa [hsubmit, first_settle]
  | retarget index newDiff =>
    simp only [elsewhere, Server.step, retarget]
    split
    · exact h
    · simpa [setConnection] using h
  | disconnect index =>
    simp only [elsewhere, Server.step]
    rwa [List.getElem?_eraseIdx_of_lt (Nat.succ_pos index)]
  | connect connId currentDiff =>
    obtain ⟨hlen, _⟩ := List.getElem?_eq_some_iff.mp h
    simp only [elsewhere, Server.step]
    rwa [List.getElem?_append_left hlen]
  | jobs action => exact h
  | receiveShare => exact h
  | closeShares => exact h
  | forwardBlock => exact h

theorem inv_step {state : State Body} (h : Inv state) (a : Action Body) :
    Inv (step crates float state a) := by
  obtain ⟨conn, hconn, hlast⟩ := h.current
  cases a with
  | elsewhere action =>
    exact ⟨⟨conn, first_elsewhere crates float hconn action, hlast⟩, h.learned, h.flights⟩
  | retarget newDiff =>
    have hserver : (Server.step crates float state.server (.retarget 0 newDiff)).connections[0]? =
        some { conn with currentDiff := newDiff, shareCount := 0 } := by
      obtain ⟨hlen, _⟩ := List.getElem?_eq_some_iff.mp hconn
      simp only [Server.step, Server.retarget, hconn, setConnection, List.getElem?_set_self hlen]
    have hmore : ∀ n, n ≤ state.written.length →
        n ≤ (state.written ++ announced state.server newDiff).length := by
      intro n hn
      rw [List.length_append]
      omega
    refine ⟨⟨_, hserver, ?_⟩, hmore _ h.learned, fun f hf => hmore _ (h.flights f hf)⟩
    simp only [step, announced, hconn]
    by_cases hd : newDiff = conn.currentDiff
    · simpa [hd] using hlast
    · simp [hd]
  | learn => exact ⟨h.current, Nat.min_le_right _ _, h.flights⟩
  | send params =>
    refine ⟨h.current, h.learned, ?_⟩
    intro flight hf
    obtain hf | hf := List.mem_append.mp hf
    · exact h.flights flight hf
    · rw [List.mem_singleton.mp hf]
      exact h.learned
  | arrive =>
    rw [step]
    split
    · exact h
    · rename_i flight rest hflights
      have hsub := submit_outcome crates float state.server 0 flight.params
      obtain ⟨conn', hconn', hdiff, _⟩ := hsub.2.2.2 conn hconn
      refine ⟨⟨conn', hconn', by rw [hdiff]; exact hlast⟩, h.learned, ?_⟩
      intro f hf
      exact h.flights f (by rw [hflights]; exact List.mem_cons_of_mem _ hf)

/-- However retargets and submissions cross, a submission for an active job is
accepted if its hash meets the difficulty its miner knew when it sent it and the
one in force when it is judged. -/
theorem crossing_share_accepted {server : Server.State Body} {conn : Connection}
    (h : server.connections[0]? = some conn) (as : List (Action Body)) :
    Always (step crates float)
      (fun state => InForce state ∧ Honoured crates float difficultiesThen state)
      (greet server conn) as := by
  have hinv := always_of_invariant (inv_greet h) (fun _ a hi => inv_step crates float hi a) as
  refine always_mono ?_ hinv
  intro state hi
  refine ⟨hi.current, ?_⟩
  intro flight rest hflights _ conn' submission header rpcBlock hconn hread hjob hmeets
  obtain ⟨current, hcurrent, hlast⟩ := hi.current
  obtain rfl : current = conn' := Option.some.inj (hcurrent.symm.trans hconn)
  have harrive : (step crates float state .arrive).server =
      Server.step crates float state.server (.submit 0 flight.params) := by
    rw [step, hflights]
  rw [harrive]
  apply accepted_of_meets crates float hconn hread hjob
  apply hmeets
  rw [difficultiesThen, hlast]
  exact List.mem_append_right _ (List.mem_singleton.mpr rfl)

end Runs

section Examples

def server : Server.State Unit :=
  run (Server.step tameCrates (fun _ => [])) (Server.boot Unit)
    [.jobs (.newBlock template), .jobs (.advance 0), .connect 1 1]

def conn : Connection := ⟨lowHex 1, 1, 0, []⟩

/-- A share of difficulty one crosses a retarget to two. -/
def crossedRun : List (Action Unit) :=
  [.learn, .send (shareParams (lit "7")), .retarget 2]

def crossed : State Unit := run (step tameCrates (fun _ => [])) (greet server conn) crossedRun

theorem crossed_rejected (submission : Submission) (header : Header) (rpcBlock : RpcBlock Unit) :
    ¬ Accepted tameCrates crossed.server (step tameCrates (fun _ => []) crossed .arrive).server
      { conn with currentDiff := 2 } submission header rpcBlock := by
  have hshares : (step tameCrates (fun _ => []) crossed .arrive).server.connections.map
      Connection.shareCount = [0] := by decide +kernel
  have hblocks : (step tameCrates (fun _ => []) crossed .arrive).server.blockEvents.length =
      0 := by decide +kernel
  rintro (⟨⟨conn', hconn', hcount⟩, -⟩ | ⟨-, hrecorded⟩)
  · have hzero : conn'.shareCount = 0 := by
      have hmem := List.mem_map_of_mem (f := Connection.shareCount) (List.mem_of_getElem? hconn')
      rw [hshares] at hmem
      exact List.mem_singleton.mp hmem
    rw [hzero] at hcount
    exact absurd hcount (Nat.zero_ne_add_one _)
  · have hlen := congrArg List.length hrecorded
    rw [hblocks, List.length_append, List.length_singleton] at hlen
    exact absurd hlen (Nat.zero_ne_add_one _)

def templateHeader : Header :=
  ⟨zeroHash, 1, [], zeroHash, zeroHash, zeroHash, 0, 0, 0, 0, 0, 0, zeroHash⟩

theorem crossed_written : (run (step tameCrates (fun _ => [])) (greet server conn) crossedRun).written =
    [1, 2] := by decide +kernel

theorem first_difficulty_met : Meets tameCrates templateHeader 0x0001000000000007 1 := by
  have hmeets : (verifyShare tameCrates templateHeader 0x0001000000000007 (UInt64.toFloat 1)).1 = true := by
    decide +kernel
  exact hmeets

/-- The miner kept to the difficulty it knew, and the server rejects its share. -/
theorem crossing_share_rejected :
    ¬ ∀ crates : Crates, ∀ float : Float → Str, ∀ server : Server.State Unit, ∀ conn : Connection,
      server.connections[0]? = some conn → ∀ as : List (Action Unit),
        Always (step crates float) (Honoured crates float difficultyKnown) (greet server conn) as := by
  intro h
  have hlast := (h tameCrates (fun _ => []) server conn rfl crossedRun).last
  apply crossed_rejected
  apply hlast ⟨shareParams (lit "7"), 1⟩ [] rfl Nat.one_pos { conn with currentDiff := 2 }
    ⟨lit "kaspa:qz0.rig", lit "0001", 0x0001000000000007⟩ templateHeader template
  · rfl
  · rfl
  · rfl
  · intro difficulty hm
    have hone : difficulty = 1 := by simpa [difficultyKnown, crossed_written] using hm
    rw [hone]
    exact first_difficulty_met

theorem crossing_share_accepted_once :
    Always (step tameCrates (fun _ => []))
      (fun state => InForce state ∧ Honoured tameCrates (fun _ => []) difficultiesThen state)
      (greet server conn) [.learn, .send (shareParams (lit "7")), .arrive, .retarget 2, .learn] :=
  crossing_share_accepted tameCrates (fun _ => []) rfl _

end Examples

end StratumPool.Crossing
