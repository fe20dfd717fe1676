import StratumPool.Crossing

namespace StratumPool.Session

open Lib Lib.Runs StratumPool.Text StratumPool.Json StratumPool.Kaspa
open StratumPool.Server (Connection tameCrates)
open StratumPool.Crossing (elsewhere announced first_elsewhere)

structure RpcRequest where
  id : Option (Value Float)
  method : Option Str
  params : Option (List (Value Float))

namespace RpcRequest

def methodName (req : RpcRequest) : Str := req.method.getD (lit "unknown")

def reqId (req : RpcRequest) : Value Float := req.id.getD .null

def isSubscribe (req : RpcRequest) : Bool := req.methodName == lit "mining.subscribe"

def isAuthorize (req : RpcRequest) : Bool := req.methodName == lit "mining.authorize"

def isSubmit (req : RpcRequest) : Bool := req.methodName == lit "mining.submit"

end RpcRequest

/-- What the server writes to a miner: the answer to a request, one of its own
notifications, or a `mining.notify` as the job manager made it. -/
inductive Message where
  | reply (id result : Value Float)
  | setExtranonce (extranonce1 : Str)
  | setDifficulty (difficulty : UInt64)
  | job (payload : Str)

namespace Message

def response (id result : Value Float) : Value Float :=
  .object [(lit "error", .null), (lit "id", id), (lit "result", result)]

def notification (method : Str) (params : List (Value Float)) : Value Float :=
  .object [(lit "id", .null), (lit "method", .string method), (lit "params", .array params)]

/-- The line on the socket. -/
def toText (float : Float → Str) : Message → Str
  | .reply id result => render float (response id result) ++ ['\n']
  | .setExtranonce extranonce1 =>
      render float (notification (lit "mining.set_extranonce") [.string extranonce1]) ++ ['\n']
  | .setDifficulty difficulty =>
      render float (notification (lit "mining.set_difficulty")
        [.number (.posInt difficulty.toNat)]) ++ ['\n']
  | .job payload => payload

def replyId : Message → Option (Value Float)
  | .reply id _ => some id
  | _ => none

/-- A message that gives the miner work to do. -/
def isWork : Message → Bool
  | .setDifficulty _ | .job _ => true
  | .reply _ _ | .setExtranonce _ => false

end Message

/-- `handshake_state` 0 and 1, the time between the handshake and the loop, the
loop, and the end of the connection. -/
inductive Phase where
  | awaitSubscribe | awaitAuthorize | greeting | serving | closed
  deriving DecidableEq

/-- The task waits for the next line of the client. -/
def Phase.reads : Phase → Bool
  | .awaitSubscribe | .awaitAuthorize | .serving => true
  | .greeting | .closed => false

/-- One connection, the first one of the server's list, from its first line on.
`next` is its position in the broadcast, `pending` the job that waits for the
throttle, `written` what its socket got. -/
structure State (Body : Type) where
  server : Server.State Body
  phase : Phase
  next : Nat
  pending : Option Str
  written : List Message

def accept {Body : Type} (server : Server.State Body) (connId currentDiff : UInt64) : State Body :=
  { server := { server with
      connections := ⟨lowHex connId, currentDiff, 0, []⟩ :: server.connections }
    phase := .awaitSubscribe
    next := server.jobs.jobTx.length
    pending := none
    written := [] }

/-- A line the client sends, or the end of its stream, which a line the codec
refuses is too, and the other arms of the loop. -/
inductive Action (Body : Type) where
  | read (line : Option Str)
  | greet
  | receive
  | tick
  | retarget (newDiff : UInt64)
  | elsewhere (action : Server.Action Body)

section Steps

variable {Body : Type} (crates : Crates) (float : Float → Str) (parse : Str → Option RpcRequest)

/-- `payload_str.trim_matches('\0').trim()` -/
def trimmed (line : Str) : Str :=
  let isNul := (· == Char.ofNat 0)
  trim ((line.dropWhile isNul).rdropWhile isNul)

def readRequest (line : Str) : Option RpcRequest :=
  if (trimmed line).isEmpty then none else parse (trimmed line)

def subscribeReply (req : RpcRequest) : Message :=
  .reply req.reqId (.array [.bool true, .string (lit "EthereumStratum/1.0.0")])

def plainReply (req : RpcRequest) : Message := .reply req.reqId (.bool true)

/-- A request that the handshake does not wait for gets no answer. -/
def shake (state : State Body) (req : RpcRequest) : State Body :=
  if state.phase = .awaitSubscribe ∧ req.isSubscribe then
    { state with
      phase := .awaitAuthorize
      written := state.written ++ subscribeReply req ::
        (state.server.connections[0]?.map (fun conn => .setExtranonce conn.extranonce1)).toList }
  else if state.phase = .awaitAuthorize ∧ req.isAuthorize then
    { state with phase := .greeting, written := state.written ++ [plainReply req] }
  else state

/-- The loop answers every request. -/
def serve (state : State Body) (req : RpcRequest) : State Body :=
  { state with
    server :=
      if req.isSubmit then Server.step crates float state.server (.submit 0 req.params)
      else state.server
    written := state.written ++ [plainReply req] }

def handle (state : State Body) (req : RpcRequest) : State Body :=
  if state.phase = .serving then serve crates float state req else shake state req

def read (state : State Body) (line : Option Str) : State Body :=
  if state.phase.reads then
    match line with
    | none => { state with phase := .closed }
    | some line =>
        match readRequest parse line with
        | none => state
        | some req => handle crates float state req
  else state

/-- The first difficulty and the cached job. -/
def greeting (state : State Body) : List Message :=
  (state.server.connections[0]?.map (fun conn => Message.setDifficulty conn.currentDiff)).toList ++
    (state.server.jobs.cachedJob.map Message.job).toList

def receive (state : State Body) : State Body :=
  match Broadcast.recv 1024 state.server.jobs.jobTx state.next with
  | (next, none) => { state with next }
  | (next, some job) => { state with next, pending := some job.payload }

def step (state : State Body) : Action Body → State Body
  | .read line => read crates float parse state line
  | .greet =>
      if state.phase = .greeting then
        { state with phase := .serving, written := state.written ++ greeting state }
      else state
  | .receive => if state.phase = .serving then receive state else state
  | .tick =>
      if state.phase = .serving then
        { state with
          written := state.written ++ (state.pending.map Message.job).toList
          pending := none }
      else state
  | .retarget newDiff =>
      if state.phase = .serving then
        { state with
          server := Server.step crates float state.server (.retarget 0 newDiff)
          written := state.written ++ (announced state.server newDiff).map Message.setDifficulty }
      else state
  | .elsewhere action =>
      { state with server := Server.step crates float state.server (elsewhere action) }

/-- The request that a step reads, if any. -/
def requestOf (state : State Body) : Action Body → Option RpcRequest
  | .read (some line) =>
      if state.phase.reads then readRequest parse line else none
  | _ => none

def requests (start : State Body) (as : List (Action Body)) : List RpcRequest :=
  expand (step crates float parse) (fun t a => (requestOf parse t a).toList) start as

end Steps

section Replies

variable {Body : Type} (crates : Crates) (float : Float → Str) (parse : Str → Option RpcRequest)

def replyIds (written : List Message) : List (Value Float) := written.filterMap Message.replyId

theorem replyIds_append (written more : List Message) :
    replyIds (written ++ more) = replyIds written ++ replyIds more := List.filterMap_append

theorem replyIds_none {more : List Message} (h : ∀ m ∈ more, m.replyId = none) :
    replyIds more = [] := List.filterMap_eq_nil_iff.mpr h

/-- The request is the one that the handshake waits for, or the handshake is
over. -/
def Awaited (state : State Body) (req : RpcRequest) : Prop :=
  (state.phase = .awaitSubscribe → req.isSubscribe = true) ∧
    (state.phase = .awaitAuthorize → req.isAuthorize = true)

theorem step_of_request {state : State Body} {a : Action Body} {req : RpcRequest}
    (h : requestOf parse state a = some req) :
    step crates float parse state a = handle crates float state req ∧ state.phase.reads = true := by
  cases a with
  | read line =>
    cases line with
    | none => cases h
    | some line =>
      simp only [requestOf, Option.ite_none_right_eq_some] at h
      exact ⟨by simp [step, read, h.1, h.2], h.1⟩
  | _ => cases h

/-- A read of no request changes nothing, or it is the end of the stream. -/
theorem read_cases {state : State Body} {line : Option Str}
    (h : requestOf parse state (.read line) = none) :
    step crates float parse state (.read line) = state ∨
      line = none ∧ step crates float parse state (.read line) = { state with phase := .closed } := by
  cases hreads : state.phase.reads with
  | false => exact .inl (by simp [step, read, hreads])
  | true =>
    cases line with
    | none => exact .inr ⟨rfl, by simp [step, read, hreads]⟩
    | some line =>
      have hnone : readRequest parse line = none := by simpa [requestOf, hreads] using h
      exact .inl (by simp [step, read, hreads, hnone])

/-- What a step does that reads no request: the client's stream may end, and
messages of the server's own may be written in the greeting or the loop. -/
theorem silent_cases {state : State Body} {a : Action Body}
    (h : requestOf parse state a = none) :
    ∃ more, (step crates float parse state a).written = state.written ++ more ∧
      (∀ m ∈ more, m.replyId = none) ∧
      (more ≠ [] → state.phase = .greeting ∨ state.phase = .serving) := by
  have hsame : ∀ after : State Body, after.written = state.written →
      ∃ more, after.written = state.written ++ more ∧ (∀ m ∈ more, m.replyId = none) ∧
        (more ≠ [] → state.phase = .greeting ∨ state.phase = .serving) :=
    fun after hw => ⟨[], by simp [hw], by simp, by simp⟩
  cases a with
  | read line =>
    apply hsame
    obtain hstep | ⟨-, hstep⟩ := read_cases crates float parse h <;> rw [hstep]
  | greet =>
    simp only [step]
    split
    · rename_i hphase
      refine ⟨greeting state, rfl, ?_, fun _ => .inl hphase⟩
      intro m hm
      obtain hm | hm := List.mem_append.mp hm
      · obtain ⟨conn, -, rfl⟩ := Option.map_eq_some_iff.mp (Option.mem_toList.mp hm)
        rfl
      · obtain ⟨payload, -, rfl⟩ := Option.map_eq_some_iff.mp (Option.mem_toList.mp hm)
        rfl
    · exact hsame state rfl
  | receive =>
    apply hsame
    simp only [step]
    split
    · rw [receive]
      split <;> rfl
    · rfl
  | tick =>
    simp only [step]
    split
    · rename_i hphase
      refine ⟨(state.pending.map Message.job).toList, rfl, ?_, fun _ => .inr hphase⟩
      intro m hm
      obtain ⟨payload, -, rfl⟩ := Option.map_eq_some_iff.mp (Option.mem_toList.mp hm)
      rfl
    · exact hsame state rfl
  | retarget newDiff =>
    simp only [step]
    split
    · rename_i hphase
      refine ⟨(announced state.server newDiff).map .setDifficulty, rfl, ?_, fun _ => .inr hphase⟩
      intro m hm
      obtain ⟨difficulty, -, rfl⟩ := List.mem_map.mp hm
      rfl
    · exact hsame state rfl
  | elsewhere action => exact hsame _ rfl

theorem replyIds_subscribe (written : List Message) (req : RpcRequest) (conn : Option Connection) :
    replyIds (written ++ subscribeReply req ::
      (conn.map (fun conn => Message.setExtranonce conn.extranonce1)).toList) =
        replyIds written ++ [req.reqId] := by
  rw [replyIds_append]
  cases conn <;> rfl

/-- A request gets its reply in the step that reads it if and only if it is
awaited. -/
theorem reply_handle {state : State Body} (hreads : state.phase.reads = true) (req : RpcRequest) :
    replyIds (handle crates float state req).written = replyIds state.written ++ [req.reqId] ↔
      Awaited state req := by
  cases hphase : state.phase with
  | awaitSubscribe =>
    rw [handle, if_neg (by simp [hphase]), shake, Awaited]
    by_cases hsub : req.isSubscribe = true
    · simp [hphase, hsub, replyIds_subscribe]
    · simp [hphase, hsub]
  | awaitAuthorize =>
    rw [handle, if_neg (by simp [hphase]), shake, Awaited]
    by_cases hauth : req.isAuthorize = true
    · simp [hphase, hauth, replyIds_append]
      rfl
    · simp [hphase, hauth]
  | serving =>
    rw [handle, if_pos hphase, serve, Awaited]
    simp [hphase, replyIds_append]
    rfl
  | greeting => simp [hphase, Phase.reads] at hreads
  | closed => simp [hphase, Phase.reads] at hreads

/-- The requests read so far are answered, once each and in their order. -/
def AllAnswered (start : State Body) (as : List (Action Body)) : Prop :=
  replyIds (run (step crates float parse) start as).written =
    (requests crates float parse start as).map RpcRequest.reqId

/-- Every request of a connection is answered by one reply with its id, in the
order of the requests, if and only if each request read in the handshake is the
one the handshake waits for. -/
theorem requests_answered_iff (server : Server.State Body) (connId currentDiff : UInt64)
    (as : List (Action Body)) :
    (∀ pre, pre <+: as → AllAnswered crates float parse (accept server connId currentDiff) pre) ↔
      Guarded (step crates float parse)
        (fun state a => ∀ req, requestOf parse state a = some req → Awaited state req)
        (accept server connId currentDiff) as := by
  apply prefix_iff_guarded (Q := AllAnswered crates float parse (accept server connId currentDiff))
  · rfl
  · intro pre a _ hall
    rw [AllAnswered] at hall ⊢
    rw [requests, expand_concat, ← requests, List.map_append, ← hall, run_concat]
    cases hreq : requestOf parse
      (run (step crates float parse) (accept server connId currentDiff) pre) a with
    | none =>
      obtain ⟨more, hwritten, hmore, -⟩ := silent_cases crates float parse hreq
      simp [hwritten, replyIds_append, replyIds_none hmore]
    | some req =>
      obtain ⟨hstep, hreads⟩ := step_of_request crates float parse hreq
      simpa [hstep] using reply_handle crates float hreads req

end Replies

section Gating

variable {Body : Type} (crates : Crates) (float : Float → Str) (parse : Str → Option RpcRequest)

/-- The first `mining.subscribe` and the first `mining.authorize` after it. -/
def handshakeOf : List RpcRequest → Option RpcRequest × Option RpcRequest
  | [] => (none, none)
  | req :: rest =>
      if req.isSubscribe then (some req, rest.find? RpcRequest.isAuthorize) else handshakeOf rest

def handshakeOutput (extranonce1 : Str) :
    Option RpcRequest × Option RpcRequest → List Message
  | (none, _) => []
  | (some sub, none) => [subscribeReply sub, .setExtranonce extranonce1]
  | (some sub, some auth) => [subscribeReply sub, .setExtranonce extranonce1, plainReply auth]

/-- What one more request makes of the two. -/
def handshakeNext (req : RpcRequest) :
    Option RpcRequest × Option RpcRequest → Option RpcRequest × Option RpcRequest
  | (none, _) => (if req.isSubscribe then some req else none, none)
  | (some sub, none) => (some sub, if req.isAuthorize then some req else none)
  | (some sub, some auth) => (some sub, some auth)

theorem handshakeOf_concat (reqs : List RpcRequest) (req : RpcRequest) :
    handshakeOf (reqs ++ [req]) = handshakeNext req (handshakeOf reqs) := by
  induction reqs with
  | nil =>
    cases hsub : req.isSubscribe <;> simp [handshakeOf, handshakeNext, hsub]
  | cons first reqs ih =>
    rw [List.cons_append, handshakeOf, handshakeOf]
    cases hsub : first.isSubscribe with
    | false => simpa using ih
    | true =>
      simp only [if_true, List.find?_append]
      cases reqs.find? RpcRequest.isAuthorize with
      | some auth => rfl
      | none => cases hauth : req.isAuthorize <;> simp [handshakeNext, hauth]

/-- What the other tasks did to the server. -/
def others (as : List (Action Body)) : List (Server.Action Body) :=
  as.flatMap fun
    | .elsewhere action => [elsewhere action]
    | _ => []

theorem first_others {server : Server.State Body} {conn : Connection}
    (h : server.connections[0]? = some conn) (as : List (Action Body)) :
    (run (Server.step crates float) server (others as)).connections[0]? = some conn := by
  induction as generalizing server with
  | nil => exact h
  | cons a as ih =>
    rw [others, List.flatMap_cons, run_append, ← others]
    cases a with
    | elsewhere action => exact ih (first_elsewhere crates float h action)
    | _ => exact ih h

/-- A subscribe was read and, later, an authorize. -/
def Complete (hs : Option RpcRequest × Option RpcRequest) : Prop :=
  hs.1.isSome = true ∧ hs.2.isSome = true

theorem handshakeNext_complete {hs : Option RpcRequest × Option RpcRequest} (h : Complete hs)
    (req : RpcRequest) : handshakeNext req hs = hs := by
  obtain ⟨_ | sub, _ | auth⟩ := hs
  · cases h.1
  · cases h.1
  · cases h.2
  · rfl

/-- Where the handshake stands after these requests. -/
def PhaseFits (hs : Option RpcRequest × Option RpcRequest) : Phase → Prop
  | .awaitSubscribe => hs.1 = none
  | .awaitAuthorize => hs.1.isSome = true ∧ hs.2 = none
  | .greeting => Complete hs
  | .serving => False
  | .closed => True

/-- Up to the greeting the socket has the answers of the handshake, and the
server is as the other tasks left it. -/
structure Waiting (extranonce1 : Str) (hs : Option RpcRequest × Option RpcRequest)
    (server : Server.State Body) (state : State Body) : Prop where
  written : state.written = handshakeOutput extranonce1 hs
  server : state.server = server

/-- The first difficulty and the job that is cached. -/
def firstMessages (currentDiff : UInt64) (cachedJob : Option Str) : List Message :=
  .setDifficulty currentDiff :: (cachedJob.map Message.job).toList

/-- From the greeting on the socket has the answers of the handshake, the
greeting and what followed. -/
structure Greeted (extranonce1 : Str) (hs : Option RpcRequest × Option RpcRequest)
    (first : List Message) (state : State Body) : Prop where
  complete : Complete hs
  written : handshakeOutput extranonce1 hs ++ first <+: state.written

theorem waiting_handle {extranonce1 : Str} {hs : Option RpcRequest × Option RpcRequest}
    {state : State Body} (hwritten : state.written = handshakeOutput extranonce1 hs)
    (hphase : PhaseFits hs state.phase) (hreads : state.phase.reads = true) {conn : Connection}
    (hconn : state.server.connections[0]? = some conn) (he : conn.extranonce1 = extranonce1)
    (req : RpcRequest) :
    (handle crates float state req).written = handshakeOutput extranonce1 (handshakeNext req hs) ∧
      (handle crates float state req).server = state.server ∧
      PhaseFits (handshakeNext req hs) (handle crates float state req).phase := by
  obtain ⟨first, second⟩ := hs
  cases hp : state.phase with
  | awaitSubscribe =>
    rw [hp] at hphase
    obtain rfl : first = none := hphase
    rw [handle, if_neg (by simp [hp]), shake]
    by_cases hsub : req.isSubscribe = true
    · rw [if_pos ⟨hp, hsub⟩]
      simp [handshakeNext, hsub, hwritten, handshakeOutput, hconn, he, PhaseFits]
    · simp [hp, handshakeNext, hsub, hwritten, handshakeOutput, PhaseFits]
  | awaitAuthorize =>
    rw [hp] at hphase
    obtain ⟨hsome, hnone⟩ := hphase
    obtain ⟨sub, hsub⟩ := Option.isSome_iff_exists.mp hsome
    obtain rfl : first = some sub := hsub
    obtain rfl : second = none := hnone
    rw [handle, if_neg (by simp [hp]), shake, if_neg (by simp [hp])]
    by_cases hauth : req.isAuthorize = true
    · rw [if_pos ⟨hp, hauth⟩]
      simp [handshakeNext, hauth, hwritten, handshakeOutput, PhaseFits, Complete]
    · simp [hp, handshakeNext, hauth, hwritten, handshakeOutput, PhaseFits]
  | serving =>
    rw [hp] at hphase
    exact hphase.elim
  | greeting => simp [hp, Phase.reads] at hreads
  | closed => simp [hp, Phase.reads] at hreads

/-- Past the greeting a connection stays so, and keeps what was written. -/
theorem later_step {state : State Body} (h : state.phase = .serving ∨ state.phase = .closed)
    (a : Action Body) :
    ((step crates float parse state a).phase = .serving ∨
        (step crates float parse state a).phase = .closed) ∧
      state.written <+: (step crates float parse state a).written := by
  have hgreeting : state.phase ≠ .greeting := by
    intro hg
    simp [hg] at h
  cases hreq : requestOf parse state a with
  | some req =>
    obtain ⟨hstep, hreads⟩ := step_of_request crates float parse hreq
    have hserving : state.phase = .serving := by
      obtain hs | hc := h
      · exact hs
      · simp [hc, Phase.reads] at hreads
    rw [hstep, handle, if_pos hserving]
    exact ⟨.inl hserving, List.prefix_append _ _⟩
  | none =>
    obtain ⟨more, hwritten, -, -⟩ := silent_cases crates float parse hreq
    refine ⟨?_, ⟨more, hwritten.symm⟩⟩
    cases a with
    | read line =>
      obtain hstep | ⟨-, hstep⟩ := read_cases crates float parse hreq
      · rw [hstep]
        exact h
      · rw [hstep]
        exact .inr rfl
    | greet => simpa [step, hgreeting] using h
    | receive =>
      simp only [step]
      split
      · rw [receive]
        split <;> exact h
      · exact h
    | tick =>
      simp only [step]
      split <;> exact h
    | retarget newDiff =>
      simp only [step]
      split <;> exact h
    | elsewhere action => exact h

theorem others_concat (pre : List (Action Body)) (a : Action Body) :
    others (pre ++ [a]) = others pre ++ others [a] := List.flatMap_append

theorem requests_concat (start : State Body) (pre : List (Action Body)) (a : Action Body) :
    requests crates float parse start (pre ++ [a]) =
      requests crates float parse start pre ++
        (requestOf parse (run (step crates float parse) start pre) a).toList :=
  expand_concat _ _ _ _

/-- A step before the greeting that reads no request: only the greeting itself
writes, and nothing but the other tasks changes the server. -/
theorem waiting_silent {hs : Option RpcRequest × Option RpcRequest} {state : State Body}
    {a : Action Body} (hphase : PhaseFits hs state.phase) (hreq : requestOf parse state a = none) :
    (a = .greet ∧ state.phase = .greeting) ∨
      ((step crates float parse state a).written = state.written ∧
        (step crates float parse state a).server =
          run (Server.step crates float) state.server (others [a]) ∧
        PhaseFits hs (step crates float parse state a).phase) := by
  have hserving : state.phase ≠ .serving := by
    intro hs
    rw [hs] at hphase
    exact hphase
  cases a with
  | read line =>
    right
    obtain hstep | ⟨-, hstep⟩ := read_cases crates float parse hreq
    · rw [hstep]
      exact ⟨rfl, rfl, hphase⟩
    · rw [hstep]
      exact ⟨rfl, rfl, trivial⟩
  | greet =>
    by_cases hg : state.phase = .greeting
    · exact .inl ⟨rfl, hg⟩
    · simp only [step, hg]
      exact .inr ⟨rfl, rfl, hphase⟩
  | receive =>
    simp only [step, hserving]
    exact .inr ⟨rfl, rfl, hphase⟩
  | tick =>
    simp only [step, hserving]
    exact .inr ⟨rfl, rfl, hphase⟩
  | retarget newDiff =>
    simp only [step, hserving]
    exact .inr ⟨rfl, rfl, hphase⟩
  | elsewhere action => exact .inr ⟨rfl, rfl, hphase⟩

theorem others_of_request {state : State Body} {a : Action Body} {req : RpcRequest}
    (h : requestOf parse state a = some req) : others [a] = [] := by
  cases a with
  | read line => rfl
  | _ => cases h

/-- The greeting of the run was one of its steps, and took the job that was
cached then. -/
def GreetedIn (start : State Body) (extranonce1 : Str) (currentDiff : UInt64)
    (pre : List (Action Body)) : Prop :=
  ∃ earlier, earlier ++ [.greet] <+: pre ∧
    (run (step crates float parse) start earlier).phase = .greeting ∧
    Greeted extranonce1 (handshakeOf (requests crates float parse start pre))
      (firstMessages currentDiff (run (step crates float parse) start earlier).server.jobs.cachedJob)
      (run (step crates float parse) start pre)

def WaitingIn (start : State Body) (extranonce1 : Str) (pre : List (Action Body)) : Prop :=
  Waiting extranonce1 (handshakeOf (requests crates float parse start pre))
    (run (Server.step crates float) start.server (others pre))
    (run (step crates float parse) start pre)

/-- Either of the two, with the phase that goes with it. -/
def Progress (start : State Body) (extranonce1 : Str) (currentDiff : UInt64)
    (pre : List (Action Body)) : Prop :=
  (WaitingIn crates float parse start extranonce1 pre ∧
      PhaseFits (handshakeOf (requests crates float parse start pre))
        (run (step crates float parse) start pre).phase) ∨
    (GreetedIn crates float parse start extranonce1 currentDiff pre ∧
      ((run (step crates float parse) start pre).phase = .serving ∨
        (run (step crates float parse) start pre).phase = .closed))

variable {start : State Body} {conn : Connection}

theorem progress_waiting (hconn : start.server.connections[0]? = some conn)
    {pre : List (Action Body)} (hw : WaitingIn crates float parse start conn.extranonce1 pre)
    (hphase : PhaseFits (handshakeOf (requests crates float parse start pre))
      (run (step crates float parse) start pre).phase) (a : Action Body) :
    Progress crates float parse start conn.extranonce1 conn.currentDiff (pre ++ [a]) := by
  have hfirst := first_others crates float hconn pre
  rw [← hw.server] at hfirst
  cases hreq : requestOf parse (run (step crates float parse) start pre) a with
  | some req =>
    left
    obtain ⟨hstep, hreads⟩ := step_of_request crates float parse hreq
    obtain ⟨hwritten, hserver, hfits⟩ :=
      waiting_handle crates float hw.written hphase hreads hfirst rfl req
    rw [WaitingIn, requests_concat, hreq, Option.toList_some, handshakeOf_concat, run_concat, hstep,
      others_concat, others_of_request parse hreq, List.append_nil]
    exact ⟨⟨hwritten, hserver.trans hw.server⟩, hfits⟩
  | none =>
    have hsame : requests crates float parse start (pre ++ [a]) =
        requests crates float parse start pre := by
      rw [requests_concat, hreq, Option.toList_none, List.append_nil]
    obtain ⟨rfl, hgreet⟩ | ⟨hwritten, hserver, hfits⟩ :=
      waiting_silent crates float parse hphase hreq
    · right
      have hcomplete : Complete (handshakeOf (requests crates float parse start pre)) := by
        rw [hgreet] at hphase
        exact hphase
      refine ⟨⟨pre, List.prefix_rfl, hgreet, ?_⟩, ?_⟩
      · rw [hsame, run_concat]
        refine ⟨hcomplete, ?_⟩
        simp [step, hgreet, hw.written, greeting, hfirst, firstMessages]
      · rw [run_concat]
        simp [step, hgreet]
    · left
      rw [WaitingIn, hsame, run_concat, others_concat, run_append, ← hw.server]
      exact ⟨⟨hwritten.trans hw.written, hserver⟩, hfits⟩

theorem progress_greeted {extranonce1 : Str} {currentDiff : UInt64} {pre : List (Action Body)}
    (hg : GreetedIn crates float parse start extranonce1 currentDiff pre)
    (hphase : (run (step crates float parse) start pre).phase = .serving ∨
      (run (step crates float parse) start pre).phase = .closed) (a : Action Body) :
    Progress crates float parse start extranonce1 currentDiff (pre ++ [a]) := by
  right
  obtain ⟨earlier, hearlier, hgreeting, hgreeted⟩ := hg
  obtain ⟨hlater, hgrows⟩ := later_step crates float parse hphase a
  have hsame : handshakeOf (requests crates float parse start (pre ++ [a])) =
      handshakeOf (requests crates float parse start pre) := by
    rw [requests_concat]
    cases requestOf parse (run (step crates float parse) start pre) a with
    | none => rw [Option.toList_none, List.append_nil]
    | some req =>
      rw [Option.toList_some, handshakeOf_concat, handshakeNext_complete hgreeted.complete]
  have hrun : run (step crates float parse) start (pre ++ [a]) =
      step crates float parse (run (step crates float parse) start pre) a := run_concat start pre a
  rw [← hrun] at hlater hgrows
  refine ⟨⟨earlier, hearlier.trans (List.prefix_append _ _), hgreeting, ?_⟩, hlater⟩
  rw [hsame]
  exact ⟨hgreeted.complete, hgreeted.written.trans hgrows⟩

theorem progress_run (hconn : start.server.connections[0]? = some conn)
    (hfresh : start.phase = .awaitSubscribe ∧ start.written = []) (as : List (Action Body)) :
    ∀ pre, pre <+: as →
      Progress crates float parse start conn.extranonce1 conn.currentDiff pre := by
  refine prefix_induction (.inl ⟨⟨hfresh.2, rfl⟩, ?_⟩) ?_
  · rw [run_nil, hfresh.1]
    exact rfl
  · rintro pre a - (⟨hw, hphase⟩ | ⟨hg, hphase⟩)
    · exact progress_waiting crates float parse hconn hw hphase a
    · exact progress_greeted crates float parse hg hphase a

/-- What the handshake guards, after the steps `pre`. -/
structure Gated (start : State Body) (extranonce1 : Str) (currentDiff : UInt64)
    (pre : List (Action Body)) : Prop where
  output : WaitingIn crates float parse start extranonce1 pre ∨
    GreetedIn crates float parse start extranonce1 currentDiff pre
  work : ∀ m ∈ (run (step crates float parse) start pre).written, m.isWork = true →
    Complete (handshakeOf (requests crates float parse start pre))
  effects : (run (step crates float parse) start pre).server ≠
      run (Server.step crates float) start.server (others pre) →
    Complete (handshakeOf (requests crates float parse start pre))

theorem not_work_output {extranonce1 : Str} {hs : Option RpcRequest × Option RpcRequest} :
    ∀ m ∈ handshakeOutput extranonce1 hs, m.isWork = false := by
  obtain ⟨_ | sub, _ | auth⟩ := hs <;>
    simp [handshakeOutput, subscribeReply, plainReply, Message.isWork]

/-- A line that holds no request, or one that is not awaited, changes nothing. -/
def Ignored (state : State Body) (a : Action Body) : Prop :=
  ∀ line, a = .read (some line) →
    (∀ req, requestOf parse state a = some req → ¬ Awaited state req) →
      step crates float parse state a = state

theorem ignored (state : State Body) (a : Action Body) : Ignored crates float parse state a := by
  rintro line rfl hnone
  cases hreq : requestOf parse state (.read (some line)) with
  | none =>
    obtain hstep | ⟨hend, -⟩ := read_cases crates float parse hreq
    · exact hstep
    · cases hend
  | some req =>
    obtain ⟨hstep, hreads⟩ := step_of_request crates float parse hreq
    have hnot := hnone req hreq
    rw [hstep, handle]
    cases hphase : state.phase with
    | awaitSubscribe =>
      have hsub : req.isSubscribe ≠ true := fun h => hnot ⟨fun _ => h, by simp [hphase]⟩
      simp [shake, hphase, hsub]
    | awaitAuthorize =>
      have hauth : req.isAuthorize ≠ true := fun h => hnot ⟨by simp [hphase], fun _ => h⟩
      simp [shake, hphase, hauth]
    | _ => exact absurd ⟨by simp [hphase], by simp [hphase]⟩ hnot

/-- No difficulty, no job and no effect of a submission before a subscribe and
a later authorize, whatever lines a client sends; the first of either alone
decide what is written up to the greeting. -/
theorem handshake_gates (server : Server.State Body) (connId currentDiff : UInt64)
    (as : List (Action Body)) :
    (∀ pre, pre <+: as →
      Gated crates float parse (accept server connId currentDiff) (lowHex connId) currentDiff pre) ∧
    Guarded (step crates float parse) (Ignored crates float parse)
      (accept server connId currentDiff) as := by
  refine ⟨?_, guarded_of_forall fun t a _ => ignored crates float parse t a⟩
  intro pre hp
  have hconn : (accept server connId currentDiff).server.connections[0]? =
      some ⟨lowHex connId, currentDiff, 0, []⟩ := rfl
  obtain ⟨hw, -⟩ | ⟨hg, -⟩ := progress_run crates float parse hconn ⟨rfl, rfl⟩ as pre hp
  · refine ⟨.inl hw, ?_, fun hne => absurd hw.server hne⟩
    intro m hm hwork
    rw [hw.written] at hm
    rw [not_work_output m hm] at hwork
    cases hwork
  · obtain ⟨_, _, _, hgreeted⟩ := id hg
    exact ⟨.inr hg, fun _ _ _ => hgreeted.complete, fun _ => hgreeted.complete⟩

end Gating

section Examples

def authorizeLine : Str := lit "\x7b\"id\":1,\"method\":\"mining.authorize\",\"params\":[]\x7d"

/-- A reader that knows this line. -/
def parseAuthorize (text : Str) : Option RpcRequest :=
  if text = authorizeLine then
    some ⟨some (.number (.posInt 1)), some (lit "mining.authorize"), some []⟩
  else none

/-- A miner that authorizes before it subscribes hears nothing. -/
theorem early_authorize_unanswered :
    ¬ ∀ crates : Crates, ∀ float : Float → Str, ∀ parse : Str → Option RpcRequest,
      ∀ server : Server.State Unit, ∀ connId currentDiff as,
        AllAnswered crates float parse (accept server connId currentDiff) as := by
  intro h
  have hlen := congrArg List.length
    (h tameCrates (fun _ => []) parseAuthorize (Server.boot Unit) 1 1 [.read (some authorizeLine)])
  have hreplies : (replyIds (run (step tameCrates (fun _ => []) parseAuthorize)
      (accept (Server.boot Unit) 1 1) [.read (some authorizeLine)]).written).length = 0 := by
    decide +kernel
  have hrequests : ((requests tameCrates (fun _ => []) parseAuthorize
      (accept (Server.boot Unit) 1 1) [.read (some authorizeLine)]).map RpcRequest.reqId).length =
      1 := by decide +kernel
  omega

end Examples

end StratumPool.Session
