import StratumPool.Retarget
import StratumPool.Vampire

namespace StratumPool.Vampire

open Lib Lib.Runs StratumPool.Text StratumPool.Json StratumPool.Kaspa StratumPool.Submit
  StratumPool.Wire
open StratumPool.Session (RpcRequest Message Phase accept)
open StratumPool.Server (Connection serve verdictOf tameCrates)
open StratumPool.Retarget (difficultiesOf difficultiesOf_append)

section Connection

variable {Body : Type} (crates : Crates) (float : Float → Str) (scan : Str → Option Float)
  (parse : Str → Option RpcRequest)

/-- How many messages a connection has got. -/
def Counted : Phase → Nat → Prop
  | .awaitSubscribe, n => n = 0
  | .awaitAuthorize, n => n = 2
  | .greeting, n => n = 3
  | .serving, n => 3 ≤ n
  | .closed, _ => True

/-- The three messages of the handshake are none that a worker acts on, and the
last difficulty of a served connection is the one it has. -/
structure Opened (session : Session.State Body) : Prop where
  quiet : ∀ m ∈ session.written.take 3, m.isWork = false
  counted : Counted session.phase session.written.length
  current : ∃ conn, session.server.connections[0]? = some conn ∧ (session.phase = .serving →
    (difficultiesOf session.written).getLast? = some conn.currentDiff)

theorem written_step (session : Session.State Body) (a : Session.Action Body) :
    session.written <+: (Session.step crates float parse session a).written := by
  cases hreq : Session.requestOf parse session a with
  | none =>
    obtain ⟨more, hmore, -⟩ := Session.silent_cases crates float parse hreq
    exact ⟨more, hmore.symm⟩
  | some req =>
    rw [(Session.step_of_request crates float parse hreq).1, Session.handle]
    split
    · exact List.prefix_append _ _
    · rw [Session.shake]
      split
      · exact List.prefix_append _ _
      · split
        · exact List.prefix_append _ _
        · exact List.prefix_rfl

theorem quiet_append {written more : List Message} (h3 : 3 ≤ written.length)
    (h : ∀ m ∈ written.take 3, m.isWork = false) :
    ∀ m ∈ (written ++ more).take 3, m.isWork = false := by
  rwa [List.take_append_of_le_length h3]

variable {session : Session.State Body} {conn : Connection}

/-- The messages of the handshake come first, and one by one. -/
theorem counted_handle (h : Opened session) (req : RpcRequest) :
    let after := Session.handle crates float session req
    (∀ m ∈ after.written.take 3, m.isWork = false) ∧
      Counted after.phase after.written.length := by
  intro after
  have hcounted := h.counted
  obtain ⟨conn, hconn, -⟩ := h.current
  by_cases hserving : session.phase = .serving
  · have hafter : after = Session.serve crates float session req := if_pos hserving
    rw [hserving] at hcounted
    rw [hafter]
    refine ⟨quiet_append hcounted h.quiet, ?_⟩
    simp only [Session.serve, hserving, List.length_append]
    exact hcounted.trans (Nat.le_add_right _ _)
  · have hafter : after = Session.shake session req := if_neg hserving
    rw [hafter, Session.shake]
    split
    · rename_i hsubscribe
      rw [hsubscribe.1] at hcounted
      have hnil : session.written = [] := List.length_eq_zero_iff.mp hcounted
      simp [hnil, hconn, Session.subscribeReply, Message.isWork, Counted]
    · split
      · rename_i hauthorize
        rw [hauthorize.1] at hcounted
        have htwo : session.written.length = 2 := hcounted
        refine ⟨?_, by simp [Counted, htwo]⟩
        rw [List.take_of_length_le (by simp [htwo])]
        have hquiet := h.quiet
        rw [List.take_of_length_le (by omega)] at hquiet
        exact List.forall_mem_append.mpr ⟨hquiet, by simp [Session.plainReply, Message.isWork]⟩
      · exact ⟨h.quiet, hcounted⟩

theorem counted_silent (h : Opened session) {a : Session.Action Body}
    (hreq : Session.requestOf parse session a = none) :
    let after := Session.step crates float parse session a
    (∀ m ∈ after.written.take 3, m.isWork = false) ∧
      Counted after.phase after.written.length := by
  intro after
  have hcounted := h.counted
  obtain ⟨more, hmore, -, hlate⟩ := Session.silent_cases crates float parse hreq
  have hmore : after.written = session.written ++ more := hmore
  have hquiet : ∀ m ∈ after.written.take 3, m.isWork = false := by
    by_cases hnil : more = []
    · rw [hmore, hnil, List.append_nil]
      exact h.quiet
    · rw [hmore]
      apply quiet_append _ h.quiet
      obtain hphase | hphase := hlate hnil <;> rw [hphase] at hcounted
      · exact (show session.written.length = 3 from hcounted).ge
      · exact hcounted
  refine ⟨hquiet, ?_⟩
  have hgrown : session.written.length ≤ after.written.length := by
    rw [hmore, List.length_append]
    omega
  cases a with
  | read line =>
    obtain hstep | ⟨-, hstep⟩ := Session.read_cases crates float parse hreq
    · have hafter : after = session := hstep
      rw [hafter]
      exact hcounted
    · have hafter : after = { session with phase := .closed } := hstep
      rw [hafter]
      trivial
  | greet =>
    by_cases hgreeting : session.phase = .greeting
    · have hphase : after.phase = .serving := by simp [after, Session.step, hgreeting]
      rw [hgreeting] at hcounted
      rw [hphase]
      exact (show session.written.length = 3 from hcounted).ge.trans hgrown
    · have hafter : after = session := if_neg hgreeting
      rw [hafter]
      exact hcounted
  | elsewhere action => exact hcounted
  | _ =>
    by_cases hserving : session.phase = .serving
    · have hphase : after.phase = .serving := by
        simp only [after, Session.step, if_pos hserving, Session.receive]
        first
          | exact hserving
          | split <;> exact hserving
      rw [hserving] at hcounted
      rw [hphase]
      exact le_trans hcounted hgrown
    · have hafter : after = session := if_neg hserving
      rw [hafter]
      exact hcounted

theorem current_step (hconn : session.server.connections[0]? = some conn)
    (hcurrent : session.phase = .serving →
      (difficultiesOf session.written).getLast? = some conn.currentDiff)
    (a : Session.Action Body) :
    ∃ conn', (Session.step crates float parse session a).server.connections[0]? = some conn' ∧
      ((Session.step crates float parse session a).phase = .serving →
        (difficultiesOf (Session.step crates float parse session a).written).getLast? =
          some conn'.currentDiff) := by
  have ho := Retarget.outcome_step crates float parse hconn a
  obtain ⟨conn', hconn', hdiff⟩ := ho.current
  refine ⟨conn', hconn', ?_⟩
  intro hafter
  rw [ho.written, hdiff]
  obtain hserving | ⟨rfl, hgreeting⟩ := ho.serving hafter
  · have hlast := hcurrent hserving
    cases a with
    | retarget newDiff =>
      by_cases hsame : newDiff = conn.currentDiff
      · simp [Retarget.announcedIn, Retarget.nextDiff, hserving, hsame, hlast]
      · simp [Retarget.announcedIn, Retarget.nextDiff, hserving, hsame]
    | greet => simp [Retarget.announcedIn, Retarget.nextDiff, hserving, hlast]
    | _ => simp [Retarget.announcedIn, Retarget.nextDiff, hlast]
  · simp [Retarget.announcedIn, Retarget.nextDiff, hgreeting]

theorem opened_step (h : Opened session) (a : Session.Action Body) :
    Opened (Session.step crates float parse session a) := by
  obtain ⟨conn, hconn, hcurrent⟩ := h.current
  have hcounted : (∀ m ∈ (Session.step crates float parse session a).written.take 3,
        m.isWork = false) ∧
      Counted (Session.step crates float parse session a).phase
        (Session.step crates float parse session a).written.length := by
    cases hreq : Session.requestOf parse session a with
    | none => exact counted_silent crates float parse h hreq
    | some req =>
      rw [(Session.step_of_request crates float parse hreq).1]
      exact counted_handle crates float h req
  exact ⟨hcounted.1, hcounted.2, current_step crates float parse hconn hcurrent a⟩

end Connection

section Following

variable {float : Float → Str} {scan : Str → Option Float}

/-- The message that announces a job. -/
def Announces (m : Message) (jobId : Str) : Prop :=
  ∃ counter param, jobId = lowHex counter ∧
    m = .job (render (fun _ => []) (notifyValue jobId param) ++ ['\n'])

def isJob : Message → Bool
  | .job _ => true
  | _ => false

/-- The difficulty of the last message that has one, or the worker's first. -/
def lastDiff (heard : List Message) : Float :=
  ((difficultiesOf heard).getLast?.map UInt64.toFloat).getD 256.0

/-- The job is the last that the messages announce, or the worker's first. -/
def LastJob (heard : List Message) (jobId : Str) : Prop :=
  ∃ ids, List.Forall₂ Announces (heard.filter isJob) ids ∧
    jobId = ids.getLast?.getD (lit "vampire_dummy_job")

/-- The worker's job and difficulty are the last that it was told. -/
structure Followed (worker : Worker) (heard : List Message) : Prop where
  diff : worker.currentDiff = lastDiff heard
  job : LastJob heard worker.currentJob

theorem followed_deploy (i : Fin concurrentWorkers) : Followed (deploy i) [] :=
  ⟨rfl, [], .nil, rfl⟩

theorem Followed.same {worker after : Worker} {heard : List Message} (h : Followed worker heard)
    (hdiff : after.currentDiff = worker.currentDiff) (hjob : after.currentJob = worker.currentJob) :
    Followed after heard :=
  ⟨hdiff.trans h.diff, by rw [hjob]; exact h.job⟩

theorem Followed.skip {worker : Worker} {heard : List Message} (h : Followed worker heard)
    {m : Message} (hm : m.isWork = false) : Followed worker (heard ++ [m]) := by
  have hdiff : difficultiesOf [m] = [] := by cases m <;> first | rfl | cases hm
  have hjob : [m].filter isJob = [] := by cases m <;> first | rfl | cases hm
  refine ⟨?_, ?_⟩
  · rw [h.diff, lastDiff, lastDiff, difficultiesOf_append, hdiff, List.append_nil]
  · rw [LastJob, List.filter_append, hjob, List.append_nil]
    exact h.job

theorem Followed.setDiff {worker : Worker} {heard : List Message} (h : Followed worker heard)
    (difficulty : UInt64) : Followed { worker with currentDiff := difficulty.toFloat }
      (heard ++ [.setDifficulty difficulty]) := by
  refine ⟨?_, ?_⟩
  · have hone : difficultiesOf [.setDifficulty difficulty] = [difficulty] := rfl
    rw [lastDiff, difficultiesOf_append, hone, List.getLast?_append_cons]
    rfl
  · have hnone : [Message.setDifficulty difficulty].filter isJob = [] := rfl
    rw [LastJob, List.filter_append, hnone, List.append_nil]
    exact h.job

theorem Followed.setJob {worker : Worker} {heard : List Message} (h : Followed worker heard)
    {m : Message} {jobId : Str} (hm : Announces m jobId) :
    Followed { worker with currentJob := jobId } (heard ++ [m]) := by
  have hannounced := hm
  obtain ⟨counter, param, -, rfl⟩ := hm
  obtain ⟨ids, hids, -⟩ := h.job
  refine ⟨?_, ids ++ [jobId], ?_, ?_⟩
  · rw [lastDiff, difficultiesOf_append]
    simp only [difficultiesOf, List.filterMap_cons, List.filterMap_nil, List.append_nil]
    exact h.diff
  · rw [List.filter_append]
    exact List.rel_append hids (.cons hannounced .nil)
  · simp

/-- The value of a message has its worker take it as it was meant. -/
theorem followed_receive {worker : Worker} {heard : List Message} (h : Followed worker heard)
    {m : Message} {v : Value Float} (hsaid : Says m v) (hv : Readable float scan v) :
    Followed (worker.receive scan (render float v)) (heard ++ [m]) := by
  have hread : readText scan (render float v) = some v := readText_render hv
  simp only [Worker.receive, hread]
  cases hsaid with
  | reply id result => exact h.skip rfl
  | setExtranonce extranonce1 => exact h.skip rfl
  | setDifficulty difficulty =>
    have hvalue : asFloat (.number (.posInt difficulty.toNat)) = some difficulty.toFloat := by
      rw [asFloat, UInt64.ofNat_toNat]
    have hmethod : (Message.notification (lit "mining.set_difficulty")
        [.number (.posInt difficulty.toNat)]).field (lit "method") =
          (.string (lit "mining.set_difficulty") : Value Float) := rfl
    have hparams : (Message.notification (lit "mining.set_difficulty")
        [.number (.posInt difficulty.toNat)]).field (lit "params") =
          (.array [.number (.posInt difficulty.toNat)] : Value Float) := rfl
    have hother : (Value.string (lit "mining.set_difficulty") : Value Float).asStr ≠
        some (lit "mining.notify") := fun heq => absurd (Option.some.inj heq) (by decide)
    rw [hmethod, if_neg hother, Value.asStr, if_pos rfl, Worker.onParam, hparams]
    simp only [hvalue]
    exact h.setDiff difficulty
  | job counter param => exact h.setJob ⟨counter, param, rfl, rfl⟩

theorem short_announced {messages : List Message} {ids : List Str}
    (h : List.Forall₂ Announces messages ids) : ∀ jobId ∈ ids, Short jobId := by
  induction h with
  | nil => simp
  | cons hannounced _ ih =>
    obtain ⟨counter, -, rfl, -⟩ := hannounced
    refine List.forall_mem_cons.mpr ⟨⟨plain_padded 4 _, ?_⟩, ih⟩
    rw [Nonce.length_lowHex]
    decide

theorem Followed.short_job {worker : Worker} {heard : List Message} (h : Followed worker heard) :
    Short worker.currentJob := by
  obtain ⟨ids, hids, hjob⟩ := h.job
  rw [hjob]
  cases hlast : ids.getLast? with
  | none =>
    rw [Option.getD_none]
    decide
  | some jobId => exact short_announced hids jobId (List.mem_of_getLast? hlast)

end Following

section Links

variable {Body : Type} (crates : Crates) (float : Float → Str) (scan : Str → Option Float)
  (i : Fin concurrentWorkers)

/-- The lines of the handshake that a worker has behind it. -/
def Stage.linesRead : Stage → Nat
  | .subscribing => 0
  | .injecting => 1
  | .authorizing => 2
  | .mining => 3

/-- What the worker has heard of the messages, and what waits for it. -/
structure Listening (state : State Body) (heard waiting : List Message) : Prop where
  split : state.session.written = heard ++ waiting
  unread : state.toClient = socketText float waiting
  followed : Followed state.vampire heard
  early : state.vampire.stage ≠ .mining → heard.length ≤ state.vampire.stage.linesRead

/-- All that the worker has written. -/
def sentBy (stage : Stage) (fired : List Submission) : List (Value Float) :=
  match stage with
  | .subscribing | .injecting => [subReq]
  | .authorizing | .mining => subReq :: authReq (workerName i) :: fired.map submitReq

/-- All that the server has taken of it. -/
def takenBy (phase : Phase) (judged : List Submission) : List (Value Float) :=
  match phase with
  | .awaitSubscribe => []
  | .awaitAuthorize => [subReq]
  | .greeting | .serving | .closed =>
      subReq :: authReq (workerName i) :: judged.map submitReq

/-- As long as the connection is there, nothing is between what the worker wrote
and what the server took but the lines on the socket. -/
structure Queued (state : State Body) : Prop where
  fired : ∀ submission ∈ state.fired,
    submission.worker = workerName i ∧ Short submission.jobId
  idle : state.vampire.stage ≠ .mining → state.fired = []
  fresh : state.session.phase ≠ .serving → state.session.phase ≠ .closed → state.judged = []
  judged : state.judged <+: state.fired
  queue : state.session.phase ≠ .closed → ∃ reqs, state.toServer = reqs.flatMap toLine ∧
    sentBy i state.vampire.stage state.fired =
      takenBy i state.session.phase state.judged ++ reqs

structure Linked (state : State Body) : Prop where
  opened : Opened state.session
  spoken : Spoken float scan state.session
  name : state.vampire.workerName = workerName i
  listening : ∃ heard waiting, Listening float state heard waiting
  queued : Queued i state

theorem short_workerName : Short (workerName i) :=
  ⟨plain_workerName i, by rw [length_workerName]; decide⟩

theorem isRequest_sent {stage : Stage} {fired : List Submission}
    (h : ∀ submission ∈ fired, submission.worker = workerName i ∧ Short submission.jobId) :
    ∀ req ∈ sentBy i stage fired, IsRequest req := by
  have hall : ∀ req ∈ subReq :: authReq (workerName i) :: fired.map submitReq, IsRequest req := by
    simp only [List.forall_mem_cons, List.forall_mem_map]
    refine ⟨isRequest_sub, isRequest_auth (short_workerName i), fun submission hs => ?_⟩
    obtain ⟨hworker, hjob⟩ := h submission hs
    exact isRequest_submit (hworker ▸ short_workerName i) hjob
  cases stage with
  | subscribing | injecting =>
    exact fun req hr => hall req (List.mem_cons.mpr (.inl (List.mem_singleton.mp hr)))
  | authorizing | mining => exact hall

theorem submitReq_injective : Function.Injective submitReq := by
  intro a b h
  simp only [submitReq, request, List.map_cons, List.map_nil, Value.object.injEq, List.cons.injEq,
    Prod.mk.injEq, Value.array.injEq, Value.string.injEq, true_and, and_true] at h
  obtain ⟨hworker, hjob, hnonce⟩ := h
  have hnonce := UInt64.toNat_inj.mp (HexText.padded_injective 16 hnonce)
  cases a
  cases b
  simp_all

variable {float scan i} {state : State Body}

theorem listening_act {heard waiting : List Message} (h : Listening float state heard waiting)
    (a : Session.Action Body) :
    ∃ more, Listening float (act crates float scan state a) heard (waiting ++ more) := by
  obtain ⟨more, hmore⟩ := written_step crates float (parseRequest scan) state.session a
  refine ⟨more, ?_, ?_, h.followed, h.early⟩
  · simp only [act]
    rw [← hmore, h.split, List.append_assoc]
  · simp only [act]
    rw [← hmore, List.drop_left, h.unread]
    exact List.flatMap_append.symm

/-- A step of the connection, with what is queued after it. -/
theorem Linked.acted (h : Linked float scan i state) {a : Session.Action Body} {toServer : Str}
    (hid : ∀ req, Session.requestOf (parseRequest scan) state.session a = some req →
      Readable float scan req.reqId)
    (hqueued : Queued i { act crates float scan state a with toServer }) :
    Linked float scan i { act crates float scan state a with toServer } := by
  obtain ⟨heard, waiting, hlistening⟩ := h.listening
  obtain ⟨more, hmore⟩ := listening_act crates hlistening a
  exact ⟨opened_step crates float _ h.opened a, spoken_step crates _ h.spoken a hid, h.name,
    ⟨heard, _, hmore.split, hmore.unread, hmore.followed, hmore.early⟩, hqueued⟩

theorem phase_silent {a : Session.Action Body}
    (hreq : Session.requestOf (parseRequest scan) state.session a = none) :
    let after := Session.step crates float (parseRequest scan) state.session a
    after.phase = state.session.phase ∨
      (state.session.phase = .greeting ∧ after.phase = .serving) ∨ after.phase = .closed := by
  intro after
  cases a with
  | read line =>
    obtain hstep | ⟨-, hstep⟩ := Session.read_cases crates float _ hreq
    · exact .inl (congrArg _ hstep)
    · exact .inr (.inr (congrArg _ hstep))
  | greet =>
    by_cases hgreeting : state.session.phase = .greeting
    · exact .inr (.inl ⟨hgreeting, by simp [after, Session.step, hgreeting]⟩)
    · exact .inl (by simp [after, Session.step, hgreeting])
  | elsewhere action => exact .inl rfl
  | _ =>
    left
    simp only [after, Session.step, Session.receive]
    split
    · first
        | rfl
        | split <;> rfl
    · rfl

/-- A step that takes no line leaves the queue as it is. -/
theorem queued_silent (h : Queued i state) {a : Session.Action Body}
    (hreq : Session.requestOf (parseRequest scan) state.session a = none) :
    Queued i (act crates float scan state a) := by
  have hjudged : (act crates float scan state a).judged = state.judged := by
    simp only [act, judgedIn, hreq, Option.toList_none, List.append_nil]
  have hphase : (act crates float scan state a).session.phase = state.session.phase ∨
      (state.session.phase = .greeting ∧
        (act crates float scan state a).session.phase = .serving) ∨
      (act crates float scan state a).session.phase = .closed := phase_silent crates hreq
  refine ⟨h.fired, h.idle, ?_, by rw [hjudged]; exact h.judged, ?_⟩
  · intro hserving hclosed
    obtain hsame | ⟨-, hlater⟩ | hend := hphase
    · rw [hsame] at hserving hclosed
      rw [hjudged]
      exact h.fresh hserving hclosed
    · exact absurd hlater hserving
    · exact absurd hend hclosed
  · intro hclosed
    rw [hjudged]
    obtain hsame | ⟨hgreeting, hlater⟩ | hend := hphase
    · rw [hsame] at hclosed ⊢
      exact h.queue hclosed
    · obtain ⟨reqs, htext, hsent⟩ := h.queue (by rw [hgreeting]; decide)
      rw [hgreeting] at hsent
      rw [hlater]
      exact ⟨reqs, htext, hsent⟩
    · exact absurd hend hclosed

theorem linked_silent (h : Linked float scan i state) {a : Session.Action Body}
    (hreq : Session.requestOf (parseRequest scan) state.session a = none) :
    Linked float scan i (act crates float scan state a) :=
  h.acted crates (by simp [hreq]) (queued_silent crates h.queued hreq)

/-- The server takes the line of a request that the worker wrote. -/
theorem requestOf_line (hreads : state.session.phase.reads = true) (id : Nat) (method : Str)
    (params : List Str) :
    Session.requestOf (parseRequest scan) state.session
      (.read (some (render (fun _ => []) (request id method params)))) =
        some (rpcRequest id method params) := by
  rw [Session.requestOf, if_pos hreads, readRequest_line]

/-- In the handshake the server takes the request that it waits for. -/
theorem queued_shake (h : Queued i state) {id : Nat} {method : Str} {params : List Str}
    {rest : List (Value Float)} {before after : Phase} (hreads : before.reads = true)
    (hphase : state.session.phase = before) (hne : before ≠ .serving)
    (hnext : (Session.shake state.session (rpcRequest id method params)).phase = after)
    (hqueue : after ≠ .closed → sentBy i state.vampire.stage state.fired =
      takenBy i after [] ++ rest) :
    Queued i { act crates float scan state
        (.read (some (render (fun _ => []) (request id method params)))) with
      toServer := rest.flatMap toLine } := by
  have hreq : Session.requestOf (parseRequest scan) state.session
      (.read (some (render (fun _ => []) (request id method params)))) =
        some (rpcRequest id method params) := requestOf_line (hphase ▸ hreads) id method params
  have hserving : state.session.phase ≠ .serving := hphase ▸ hne
  have hclosed : state.session.phase ≠ .closed := by
    rintro hclosed
    rw [← hphase, hclosed] at hreads
    cases hreads
  have hstep := (Session.step_of_request crates float (parseRequest scan) hreq).1
  rw [Session.handle, if_neg hserving] at hstep
  have hfresh := h.fresh hserving hclosed
  have hjudged : judgedIn crates float scan state.session
      (.read (some (render (fun _ => []) (request id method params)))) = none := by
    simp only [judgedIn, hreq, hserving, false_and, if_false]
  constructor
  · exact h.fired
  · exact h.idle
  · intro _ _
    simp only [act, hjudged, hfresh]
    rfl
  · simp only [act, hjudged, hfresh]
    exact List.nil_prefix
  · intro hopen
    simp only [act, hjudged, hfresh, hstep, hnext] at hopen ⊢
    exact ⟨rest, rfl, hqueue hopen⟩

/-- A step that reads no line leaves an open connection open. -/
theorem open_silent {a : Session.Action Body} (hopen : state.session.phase ≠ .closed)
    (hread : ∀ line, a ≠ .read line) :
    (Session.step crates float (parseRequest scan) state.session a).phase ≠ .closed := by
  cases a with
  | read line => exact absurd rfl (hread line)
  | elsewhere action => exact hopen
  | _ =>
    simp only [Session.step, Session.receive]
    split
    · first
        | exact Phase.noConfusion
        | exact hopen
        | split <;> exact hopen
    · exact hopen

theorem phase_of_request {a : Session.Action Body} {req : RpcRequest}
    (hopen : state.session.phase ≠ .closed)
    (hreq : Session.requestOf (parseRequest scan) state.session a = some req) :
    (Session.step crates float (parseRequest scan) state.session a).phase ≠ .closed := by
  rw [(Session.step_of_request crates float _ hreq).1, Session.handle]
  split
  · exact hopen
  · rw [Session.shake]
    split
    · exact Phase.noConfusion
    · split
      · exact Phase.noConfusion
      · exact hopen

theorem fired_of_sent {stage : Stage} {fired judged : List Submission} {reqs : List (Value Float)}
    (h : sentBy i stage fired = takenBy i .serving judged ++ reqs) :
    ∃ left, fired = judged ++ left ∧ reqs = left.map submitReq := by
  have hmap : fired.map submitReq = judged.map submitReq ++ reqs := by
    cases stage <;> simp only [sentBy, takenBy] at h
    · simp at h
    · simp at h
    · simpa using h
    · simpa using h
  obtain ⟨taken, left, hsplit, htaken, hleft⟩ := List.map_eq_append_iff.mp hmap
  obtain rfl : taken = judged := List.map_injective_iff.mpr submitReq_injective htaken
  exact ⟨left, hsplit, hleft.symm⟩

/-- What is between a worker and an open connection: the rest of the handshake,
and behind it the submissions that are not judged. -/
theorem left_of_sent {stage : Stage} {phase : Phase} {fired judged : List Submission}
    {reqs : List (Value Float)} (hidle : stage ≠ .mining → fired = [])
    (hfresh : phase ≠ .serving → phase ≠ .closed → judged = []) (hopen : phase ≠ .closed)
    (h : sentBy i stage fired = takenBy i phase judged ++ reqs) :
    ∃ handshake waiting, fired = judged ++ waiting ∧
      reqs = handshake ++ waiting.map submitReq ∧
      handshake.Sublist [subReq, authReq (workerName i)] ∧ (phase = .serving → handshake = []) := by
  have hnone : phase ≠ .serving → judged = [] := fun hne => hfresh hne hopen
  cases phase with
  | awaitSubscribe =>
    obtain rfl := hnone (by decide)
    cases stage with
    | subscribing | injecting =>
      obtain rfl := hidle (by decide)
      exact ⟨[subReq], [], rfl, h.symm, by simp, by simp⟩
    | authorizing | mining =>
      exact ⟨[subReq, authReq (workerName i)], fired, rfl, h.symm, by simp, by simp⟩
  | awaitAuthorize =>
    obtain rfl := hnone (by decide)
    cases stage with
    | subscribing | injecting =>
      obtain rfl := hidle (by decide)
      exact ⟨[], [], rfl, (List.cons.inj h).2.symm, by simp, by simp⟩
    | authorizing | mining =>
      exact ⟨[authReq (workerName i)], fired, rfl, (List.cons.inj h).2.symm, by simp, by simp⟩
  | greeting | serving =>
    obtain ⟨left, hsplit, hreqs⟩ := fired_of_sent h
    exact ⟨[], left, hsplit, hreqs, List.nil_sublist _, fun _ => rfl⟩
  | closed => exact absurd rfl hopen

theorem queued_serve (h : Queued i state) {conn : Connection}
    (hconn : state.session.server.connections[0]? = some conn)
    (hserving : state.session.phase = .serving) {req : Value Float} {rest : List (Value Float)}
    (hsent : sentBy i state.vampire.stage state.fired =
      takenBy i .serving state.judged ++ req :: rest) :
    Queued i { act crates float scan state (.read (some (render (fun _ => []) req))) with
      toServer := rest.flatMap toLine } := by
  obtain ⟨left, hsplit, hleft⟩ := fired_of_sent hsent
  obtain ⟨submission, later, rfl, rfl, rfl⟩ := List.map_eq_cons_iff.mp hleft.symm
  have hreads : state.session.phase.reads = true := by rw [hserving]; rfl
  have hreq : Session.requestOf (parseRequest scan) state.session
      (.read (some (render (fun _ => []) (request 4 (lit "mining.submit")
        [submission.worker, submission.jobId, HexText.padded 16 submission.nonce.toNat])))) =
      some (rpcRequest 4 (lit "mining.submit")
        [submission.worker, submission.jobId, HexText.padded 16 submission.nonce.toNat]) :=
    requestOf_line hreads 4 _ _
  have hstep := (Session.step_of_request crates float (parseRequest scan) hreq).1
  rw [Session.handle, if_pos hserving] at hstep
  have hmem : submission ∈ state.fired := by simp [hsplit]
  have hjudged : judgedIn crates float scan state.session
      (.read (some (render (fun _ => []) (submitReq submission)))) = some submission := by
    obtain ⟨hworker, hjob⟩ := h.fired submission hmem
    have hread := readSubmission_submit float conn.extranonce1
      (hworker ▸ plain_workerName i) hjob.1
    simp only [judgedIn, submitReq, hreq, hserving, isSubmit_rpcRequest, and_self, if_true,
      verdictOf, hconn, params_rpcRequest, Option.bind_eq_bind, Option.bind_some, hread,
      Option.pure_def, Option.map_some]
  have hphase : (act crates float scan state
      (.read (some (render (fun _ => []) (submitReq submission))))).session.phase = .serving := by
    simp only [act, submitReq, hstep, Session.serve, hserving]
  constructor
  · exact h.fired
  · exact h.idle
  · intro hnot
    exact absurd hphase hnot
  · simp only [act, hjudged, Option.toList_some, hsplit]
    exact ⟨later, by simp⟩
  · intro _
    refine ⟨later.map submitReq, rfl, ?_⟩
    rw [hphase]
    simp only [act, hjudged, Option.toList_some, hsent, takenBy]
    simp

theorem phase_shake_subscribe (hphase : state.session.phase = .awaitSubscribe) (id : Nat)
    (params : List Str) :
    (Session.shake state.session (rpcRequest id (lit "mining.subscribe") params)).phase =
      .awaitAuthorize := by
  have hsubscribe : (rpcRequest id (lit "mining.subscribe") params).isSubscribe = true :=
    beq_self_eq_true (lit "mining.subscribe")
  rw [Session.shake, if_pos ⟨hphase, hsubscribe⟩]

theorem phase_shake_authorize (hphase : state.session.phase = .awaitAuthorize) (id : Nat)
    (params : List Str) :
    (Session.shake state.session (rpcRequest id (lit "mining.authorize") params)).phase =
      .greeting := by
  have hauthorize : (rpcRequest id (lit "mining.authorize") params).isAuthorize = true :=
    beq_self_eq_true (lit "mining.authorize")
  rw [Session.shake, if_neg (by simp [hphase]), if_pos ⟨hphase, hauthorize⟩]

theorem readable_taken {req : Value Float} (h : IsRequest req) :
    ∀ r, Session.requestOf (parseRequest scan) state.session
      (.read (some (render (fun _ => []) req))) = some r → Readable float scan r.reqId := by
  obtain ⟨id, method, params, rfl, -⟩ := h
  intro r hr
  cases hreads : state.session.phase.reads with
  | false => simp [Session.requestOf, hreads] at hr
  | true =>
    rw [requestOf_line hreads] at hr
    cases hr
    trivial

theorem open_of_reads (hreads : state.session.phase.reads = true) :
    state.session.phase ≠ .closed := by
  rintro hclosed
  rw [hclosed] at hreads
  cases hreads

/-- A server that reads gets the next request of the worker, if there is one. -/
theorem deliver_cases (h : Linked float scan i state) :
    deliver crates float scan state = state ∨ ∃ req rest, IsRequest req ∧
      state.session.phase.reads = true ∧
      sentBy i state.vampire.stage state.fired =
        takenBy i state.session.phase state.judged ++ req :: rest ∧
      deliver crates float scan state =
        { act crates float scan state (.read (some (render (fun _ => []) req))) with
          toServer := rest.flatMap toLine } := by
  rw [deliver]
  split
  · rename_i hreads
    obtain ⟨reqs, htext, hsent⟩ := h.queued.queue (open_of_reads hreads)
    cases reqs with
    | nil =>
      rw [htext, List.flatMap_nil, nextLine_nil]
      exact .inl rfl
    | cons req rest =>
      have hreq : IsRequest req :=
        isRequest_sent i h.queued.fired req (by rw [hsent]; simp)
      rw [htext, nextLine_requests hreq]
      simp only [decode_request hreq]
      exact .inr ⟨req, rest, hreq, hreads, hsent, rfl⟩
  · exact .inl rfl

theorem open_deliver (h : Linked float scan i state) (hopen : state.session.phase ≠ .closed) :
    (deliver crates float scan state).session.phase ≠ .closed := by
  obtain hsame | ⟨_, rest, ⟨id, method, params, rfl, -⟩, hreads, -, hdeliver⟩ :=
    deliver_cases crates h
  · rwa [hsame]
  · rw [hdeliver]
    exact phase_of_request crates hopen (requestOf_line hreads id method params)

theorem linked_deliver (h : Linked float scan i state) :
    Linked float scan i (deliver crates float scan state) := by
  obtain hsame | ⟨req, rest, hreq, hreads, hsent, hdeliver⟩ := deliver_cases crates h
  · rwa [hsame]
  · rw [hdeliver]
    refine h.acted crates (readable_taken hreq) ?_
    cases hphase : state.session.phase with
    | awaitSubscribe =>
      rw [hphase] at hsent
      -- whatever the worker has sent, it began with its subscription
      have hsub : req = subReq := by
        cases hstage : state.vampire.stage <;> simp_all [sentBy, takenBy]
      subst hsub
      refine queued_shake crates h.queued rfl hphase (by decide)
        (phase_shake_subscribe hphase _ _) ?_
      exact fun _ => hsent
    | awaitAuthorize =>
      rw [hphase] at hsent
      have hauth : req = authReq (workerName i) := by
        cases hstage : state.vampire.stage <;> simp_all [sentBy, takenBy]
      subst hauth
      refine queued_shake crates h.queued rfl hphase (by decide)
        (phase_shake_authorize hphase _ _) ?_
      exact fun _ => hsent
    | serving =>
      rw [hphase] at hsent
      obtain ⟨conn, hconn, -⟩ := h.opened.current
      exact queued_serve crates h.queued hconn hphase hsent
    | greeting =>
      rw [hphase] at hreads
      cases hreads
    | closed => exact absurd hphase (open_of_reads hreads)

theorem receive_frame (worker : Worker) (line : Str) :
    (worker.receive scan line).workerName = worker.workerName ∧
      (worker.receive scan line).stage = worker.stage := by
  rw [Worker.receive]
  split
  · exact ⟨rfl, rfl⟩
  · simp only [Worker.onParam]
    split_ifs
    · split
      · exact ⟨rfl, rfl⟩
      · split <;> exact ⟨rfl, rfl⟩
      · exact ⟨rfl, rfl⟩
    · split
      · exact ⟨rfl, rfl⟩
      · split <;> exact ⟨rfl, rfl⟩
      · exact ⟨rfl, rfl⟩
    · exact ⟨rfl, rfl⟩

theorem name_hearLine (state : State Body) (line : Option Str) :
    (hearLine scan state line).vampire.workerName = state.vampire.workerName := by
  simp only [hearLine, Worker.next]
  cases state.vampire.stage with
  | mining =>
    cases line with
    | none => rfl
    | some line => exact (receive_frame state.vampire line).1
  | _ => rfl

/-- What the worker writes as it goes on keeps the queue right. -/
theorem queued_hearLine (h : Queued i state) (hname : state.vampire.workerName = workerName i)
    (toClient : Str) (line : Option Str) :
    Queued i (hearLine scan { state with toClient } line) := by
  obtain ⟨hfired, hidle, hfresh, hjudged, hqueue⟩ := h
  simp only [hearLine, Worker.next]
  cases hstage : state.vampire.stage with
  | subscribing =>
    refine ⟨hfired, fun _ => hidle (by rw [hstage]; decide), hfresh, hjudged, ?_⟩
    intro hopen
    obtain ⟨reqs, htext, hsent⟩ := hqueue hopen
    rw [hstage] at hsent
    exact ⟨reqs, by simpa using htext, hsent⟩
  | injecting =>
    have hnone := hidle (by rw [hstage]; decide)
    refine ⟨hfired, fun _ => hnone, hfresh, hjudged, ?_⟩
    intro hopen
    obtain ⟨reqs, htext, hsent⟩ := hqueue hopen
    rw [hstage] at hsent
    refine ⟨reqs ++ [authReq (workerName i)], ?_, ?_⟩
    · simp only [htext, hname, List.flatMap_append]
    · have hgrown : sentBy i .authorizing state.fired =
          sentBy i .injecting state.fired ++ [authReq (workerName i)] := by
        rw [hnone]
        rfl
      rw [← List.append_assoc, ← hsent, hgrown]
  | authorizing =>
    have hnone := hidle (by rw [hstage]; decide)
    refine ⟨hfired, fun _ => hnone, hfresh, hjudged, ?_⟩
    intro hopen
    obtain ⟨reqs, htext, hsent⟩ := hqueue hopen
    rw [hstage] at hsent
    exact ⟨reqs, by simpa using htext, hsent⟩
  | mining =>
    have hmining : ∀ worker : Worker, worker.stage = .mining →
        Queued i { state with vampire := worker, toServer := state.toServer ++ [], toClient } := by
      intro worker hworker
      refine ⟨hfired, fun hnot => absurd hworker hnot, hfresh, hjudged, ?_⟩
      intro hopen
      obtain ⟨reqs, htext, hsent⟩ := hqueue hopen
      rw [hstage] at hsent
      exact ⟨reqs, by simpa using htext, by rw [hworker]; exact hsent⟩
    cases line with
    | none => exact hmining _ rfl
    | some line => exact hmining _ ((receive_frame _ line).2.trans hstage)

/-- The next line that a worker reads is the next message written for it. -/
theorem next_heard {heard waiting : List Message} (h : Listening float state heard waiting)
    (hspoken : Spoken float scan state.session) {line rest : Str}
    (hline : nextLine state.toClient = some (line, rest)) :
    ∃ m v later, waiting = m :: later ∧ Says m v ∧ Readable float scan v ∧
      line = render float v ∧ rest = socketText float later := by
  rw [h.unread] at hline
  cases waiting with
  | nil => cases hline
  | cons m later =>
    obtain ⟨v, hsaid, hv⟩ := hspoken.written m (by rw [h.split]; simp)
    have htext : socketText float (m :: later) =
        render float v ++ '\n' :: socketText float later := by
      rw [socketText, List.flatMap_cons, hsaid.text, List.append_assoc]
      rfl
    rw [htext, nextLine_cons (newline_not_mem hv)] at hline
    cases hline
    exact ⟨m, v, later, rfl, hsaid, hv, rfl, rfl⟩

/-- A message that comes to a worker in its handshake is one of the handshake. -/
theorem early_quiet {heard waiting : List Message} {m : Message}
    (h : Listening float state heard (m :: waiting)) (hopened : Opened state.session)
    (hstage : state.vampire.stage ≠ .mining) : m.isWork = false := by
  apply hopened.quiet
  have hlt : heard.length < 3 := by
    have hearly := h.early hstage
    cases hs : state.vampire.stage <;> simp only [hs, Stage.linesRead] at hearly
    · omega
    · omega
    · omega
    · exact absurd hs hstage
  apply List.mem_of_getElem? (i := heard.length)
  rw [List.getElem?_take_of_lt hlt, h.split]
  simp

theorem listening_hear {heard waiting : List Message} {m : Message} {v : Value Float}
    (h : Listening float state heard (m :: waiting)) (hopened : Opened state.session)
    (hsaid : Says m v) (hv : Readable float scan v) :
    Listening float (hearLine scan { state with toClient := socketText float waiting }
      (some (render float v))) (heard ++ [m]) waiting := by
  have hsplit : state.session.written = (heard ++ [m]) ++ waiting := by
    rw [h.split, List.append_assoc]
    rfl
  have hlength : (heard ++ [m]).length = heard.length + 1 := List.length_append
  have hearly := h.early
  simp only [hearLine, Worker.next]
  cases hstage : state.vampire.stage with
  | mining =>
    refine ⟨hsplit, rfl, followed_receive h.followed hsaid hv, fun hnot => ?_⟩
    exact absurd ((receive_frame _ _).2.trans hstage) hnot
  | _ =>
    have hquiet := early_quiet h hopened (by rw [hstage]; decide)
    refine ⟨hsplit, rfl, (h.followed.skip hquiet).same rfl rfl, fun _ => ?_⟩
    have hle := hearly (by rw [hstage]; decide)
    rw [hlength]
    rw [hstage] at hle
    exact Nat.succ_le_succ hle

theorem listening_end {heard waiting : List Message} (h : Listening float state heard waiting) :
    Listening float (hearLine scan state none) heard waiting := by
  have hearly := h.early
  simp only [hearLine, Worker.next]
  cases hstage : state.vampire.stage with
  | mining =>
    exact ⟨h.split, h.unread, h.followed.same rfl rfl, fun hnot => absurd rfl hnot⟩
  | _ =>
    refine ⟨h.split, h.unread, h.followed.same rfl rfl, fun _ => ?_⟩
    have hle := hearly (by rw [hstage]; decide)
    rw [hstage] at hle
    exact Nat.le_succ_of_le hle

theorem linked_hear (h : Linked float scan i state) : Linked float scan i (hear scan state) := by
  obtain ⟨heard, waiting, hlistening⟩ := h.listening
  rw [hear]
  split
  · split
    · rename_i line rest hline
      obtain ⟨m, v, later, rfl, hsaid, hv, rfl, rfl⟩ := next_heard hlistening h.spoken hline
      exact ⟨h.opened, h.spoken, (name_hearLine _ _).trans h.name,
        ⟨_, _, listening_hear hlistening h.opened hsaid hv⟩,
        queued_hearLine h.queued h.name _ _⟩
    · split
      · exact ⟨h.opened, h.spoken, (name_hearLine _ _).trans h.name,
          ⟨_, _, listening_end hlistening⟩, queued_hearLine h.queued h.name state.toClient none⟩
      · exact h
  · exact h

theorem linked_fire (h : Linked float scan i state) (nonce : UInt64) :
    Linked float scan i (fire state nonce 0) := by
  rw [fire]
  split
  · rename_i hmining
    obtain ⟨heard, waiting, hlistening⟩ := h.listening
    have hqueued := h.queued
    refine ⟨h.opened, h.spoken, h.name, ⟨heard, waiting, hlistening.split, ?_,
      hlistening.followed, hlistening.early⟩, ?_, fun hnot => absurd hmining.2 hnot,
      hqueued.fresh, hqueued.judged.trans (List.prefix_append _ _), ?_⟩
    · simp only [tear_zero]
      exact hlistening.unread
    · refine List.forall_mem_append.mpr ⟨hqueued.fired, ?_⟩
      rw [List.forall_mem_singleton]
      exact ⟨h.name, hlistening.followed.short_job⟩
    · intro hopen
      obtain ⟨reqs, htext, hsent⟩ := hqueued.queue hopen
      rw [hmining.2] at hsent
      refine ⟨reqs ++ [submitReq ⟨state.vampire.workerName, state.vampire.currentJob, nonce⟩],
        ?_, ?_⟩
      · simp [htext]
      · rw [← List.append_assoc, ← hsent]
        simp [hmining.2, sentBy]
  · exact h

/-- The worker had nothing of a line whose end was not there. -/
def Whole : Action Body → Prop
  | .fire _ torn => torn = 0
  | _ => True

theorem linked_step (h : Linked float scan i state) (a : Action Body) (hwhole : Whole a) :
    Linked float scan i (step crates float scan state a) := by
  cases a with
  | deliver => exact linked_deliver crates h
  | reset => exact linked_silent crates h rfl
  | server action =>
    cases action with
    | read line => exact h
    | _ => exact linked_silent crates h rfl
  | hear => exact linked_hear h
  | fire nonce torn =>
    obtain rfl : torn = 0 := hwhole
    exact linked_fire h nonce
  | hangUp =>
    obtain ⟨heard, waiting, hlistening⟩ := h.listening
    exact ⟨h.opened, h.spoken, h.name, ⟨heard, waiting, hlistening.split, hlistening.unread,
      hlistening.followed.same rfl rfl, hlistening.early⟩, ⟨h.queued.fired, h.queued.idle,
      h.queued.fresh, h.queued.judged, h.queued.queue⟩⟩

end Links

section Agreement

variable {Body : Type} (crates : Crates) (float : Float → Str) (scan : Str → Option Float)

/-- What the worker goes by is what the server told it last of what it has read,
and once it has read all, it mines at the difficulty its shares are judged by. -/
structure InStep (state : State Body) : Prop where
  followed : ∃ heard waiting, state.session.written = heard ++ waiting ∧
    state.toClient = socketText float waiting ∧ Followed state.vampire heard
  agreed : state.session.phase = .serving → state.toClient = [] →
    ∀ conn, state.session.server.connections[0]? = some conn →
      state.vampire.currentDiff = conn.currentDiff.toFloat

/-- The text of a request, as the codec gets it without its line break. -/
def textOf (req : Value Float) : Str := render (fun _ => []) req

/-- The codec takes the line of a submission, and the server reads in it the
worker, the job and the nonce in sixteen digits. -/
structure Carried (submission : Submission) : Prop where
  taken : decode (textOf (submitReq submission)) = some (textOf (submitReq submission))
  read : ∃ digits, digits.length = 16 ∧ (∀ c ∈ digits, HexText.isLower c = true) ∧
    HexText.value digits = submission.nonce.toNat ∧
    Session.readRequest (parseRequest scan) (textOf (submitReq submission)) =
      some (rpcRequest 4 (lit "mining.submit") [submission.worker, submission.jobId, digits])

/-- The server judges what the worker submits, in its order, with its name, its
job and its nonce, each submission once. As long as the connection is there, the
rest is on the socket, behind what is left of the handshake. -/
structure Ordered (i : Fin concurrentWorkers) (state : State Body) : Prop where
  carried : ∀ submission ∈ state.fired, submission.worker = workerName i ∧ Carried scan submission
  judged : state.judged <+: state.fired
  queue : state.session.phase ≠ .closed → ∃ handshake waiting,
    state.fired = state.judged ++ waiting ∧
    state.toServer = (handshake ++ waiting.map submitReq).flatMap toLine ∧
    handshake.Sublist [subReq, authReq (workerName i)] ∧
    (∀ req ∈ handshake, decode (textOf req) = some (textOf req)) ∧
    (state.session.phase = .serving → handshake = [])

/-- A worker that submits puts one line on the socket, for the last job of all it
has read, and the connection ends where the server loses its client only. -/
structure Passes (i : Fin concurrentWorkers) (state : State Body) (a : Action Body) : Prop where
  fires : ∀ nonce torn, a = .fire nonce torn → state.vampire.running = true →
    state.vampire.stage = .mining → ∃ heard waiting jobId,
      state.session.written = heard ++ waiting ∧ state.toClient = socketText float waiting ∧
      LastJob heard jobId ∧
      (step crates float scan state a).fired = state.fired ++ [⟨workerName i, jobId, nonce⟩] ∧
      (step crates float scan state a).toServer =
        state.toServer ++ toLine (submitReq ⟨workerName i, jobId, nonce⟩)
  stays : state.session.phase ≠ .closed → a ≠ .reset →
    (step crates float scan state a).session.phase ≠ .closed

variable {float scan} {i : Fin concurrentWorkers} {state : State Body}

theorem Linked.inStep (h : Linked float scan i state) : InStep float state := by
  obtain ⟨heard, waiting, hlistening⟩ := h.listening
  refine ⟨⟨heard, waiting, hlistening.split, hlistening.unread, hlistening.followed⟩, ?_⟩
  intro hserving hread conn hconn
  have hnone : waiting = [] := by
    cases waiting with
    | nil => rfl
    | cons m later =>
      obtain ⟨v, hsaid, -⟩ := h.spoken.written m (by rw [hlistening.split]; simp)
      have htext := hlistening.unread
      rw [hread, socketText, List.flatMap_cons, hsaid.text] at htext
      simp at htext
  have hall : state.session.written = heard := by rw [hlistening.split, hnone, List.append_nil]
  obtain ⟨conn', hconn', hlast⟩ := h.opened.current
  obtain rfl : conn' = conn := Option.some.inj (hconn'.symm.trans hconn)
  rw [hlistening.followed.diff, lastDiff, ← hall, hlast hserving]
  rfl

theorem carried_short {submission : Submission} (hworker : Short submission.worker)
    (hjob : Short submission.jobId) : Carried scan submission where
  taken := decode_request (isRequest_submit hworker hjob)
  read := ⟨HexText.padded 16 submission.nonce.toNat,
    HexText.length_padded (by decide) submission.nonce.toNat_lt, HexText.padded_lower 16 _,
    HexText.value_padded 16 _, readRequest_line 4 _ _⟩

theorem Linked.ordered (h : Linked float scan i state) : Ordered scan i state where
  carried := by
    intro submission hfired
    obtain ⟨hworker, hjob⟩ := h.queued.fired submission hfired
    exact ⟨hworker, carried_short (hworker ▸ short_workerName i) hjob⟩
  judged := h.queued.judged
  queue := by
    intro hopen
    obtain ⟨reqs, htext, hsent⟩ := h.queued.queue hopen
    obtain ⟨handshake, waiting, hsplit, rfl, hleft, hserving⟩ :=
      left_of_sent h.queued.idle h.queued.fresh hopen hsent
    refine ⟨handshake, waiting, hsplit, htext, hleft, ?_, hserving⟩
    intro req hreq
    apply decode_request
    apply isRequest_sent i h.queued.fired
    rw [hsent]
    simp [hreq]

theorem Linked.passes (h : Linked float scan i state) (a : Action Body) (hwhole : Whole a) :
    Passes crates float scan i state a where
  fires := by
    rintro nonce torn rfl hrunning hmining
    obtain rfl : torn = 0 := hwhole
    obtain ⟨heard, waiting, hlistening⟩ := h.listening
    refine ⟨heard, waiting, state.vampire.currentJob, hlistening.split, hlistening.unread,
      hlistening.followed.job, ?_, ?_⟩
    · rw [step, fire, if_pos ⟨hrunning, hmining⟩, h.name]
    · rw [step, fire, if_pos ⟨hrunning, hmining⟩, h.name]
  stays := by
    intro hopen hkept
    cases a with
    | deliver => exact open_deliver crates h hopen
    | reset => exact absurd rfl hkept
    | server action =>
      cases action with
      | read line => exact hopen
      | _ => exact open_silent crates hopen (by simp)
    | hear =>
      simp only [step, hear, hearLine]
      split
      · split
        · exact hopen
        · split <;> exact hopen
      · exact hopen
    | fire nonce torn =>
      rw [step, fire]
      split <;> exact hopen
    | hangUp => exact hopen

variable (float scan i)

theorem linked_connect (before : List (Server.Action Body)) (connId currentDiff : UInt64) :
    Linked float scan i (connect (serve crates float before) connId currentDiff i) where
  opened := ⟨by simp [connect, accept], rfl, _, rfl, fun h => by cases h⟩
  spoken := spoken_accept crates float scan before connId currentDiff
  name := rfl
  listening := ⟨[], [], rfl, rfl, followed_deploy i, fun _ => Nat.le_refl 0⟩
  queued := ⟨by simp [connect], fun _ => rfl, fun _ _ => rfl, List.prefix_rfl,
    fun _ => ⟨[subReq], by simp [connect], rfl⟩⟩

theorem linked_run (before : List (Server.Action Body)) (connId currentDiff : UInt64)
    {as : List (Action Body)} (hwhole : ∀ a ∈ as, Whole a) :
    Always (step crates float scan) (Linked float scan i)
      (connect (serve crates float before) connId currentDiff i) as :=
  (guarded_of_forall fun _ a ha => hwhole a ha).always
    (linked_connect crates float scan i before connId currentDiff)
    (fun _ a h hw => linked_step crates h a hw)

/-- A worker whose lines arrive whole goes by what the server has told it, job
and difficulty, in every run of both, and its handshake takes no job and no
difficulty for an answer. -/
theorem worker_in_step (before : List (Server.Action Body)) (connId currentDiff : UInt64)
    {as : List (Action Body)} (hwhole : ∀ a ∈ as, Whole a) :
    Always (step crates float scan) (InStep float)
      (connect (serve crates float before) connId currentDiff i) as :=
  always_mono (fun _ h => h.inStep)
    (linked_run crates float scan i before connId currentDiff hwhole)

/-- No submission of such a worker is lost on the way, changed or judged twice,
as long as the server does not lose its client. -/
theorem submissions_in_order (before : List (Server.Action Body)) (connId currentDiff : UInt64)
    {as : List (Action Body)} (hwhole : ∀ a ∈ as, Whole a) :
    Always (step crates float scan) (Ordered scan i)
        (connect (serve crates float before) connId currentDiff i) as ∧
      Guarded (step crates float scan) (Passes crates float scan i)
        (connect (serve crates float before) connId currentDiff i) as := by
  have hlinked := linked_run crates float scan i before connId currentDiff hwhole
  constructor
  · exact always_mono (fun _ h => h.ordered) hlinked
  · intro pre a hpre
    exact (hlinked pre (prefix_of_concat hpre)).passes crates a
      (hwhole a (hpre.subset (by simp)))

end Agreement

section Examples

def firstRig : Fin concurrentWorkers := ⟨0, Nat.succ_pos 4499⟩

/-- A handshake, one retarget, and a share on the way when it comes. -/
def shortRun : List (Action Unit) :=
  [.deliver, .hear, .hear, .deliver, .hear, .server .greet, .hear, .fire 7 0,
    .server (.retarget 512), .deliver, .hear, .hear, .fire 8 0]

theorem short_run_in_step :
    Always (step tameCrates (fun _ => []) (fun _ => none)) (InStep fun _ => [])
      (connect (serve tameCrates (fun _ => []) []) 1 256 firstRig) shortRun :=
  worker_in_step tameCrates (fun _ => []) (fun _ => none) firstRig [] 1 256
    (by simp [shortRun, Whole])

theorem short_run_in_order :
    Always (step tameCrates (fun _ => []) (fun _ => none)) (Ordered (fun _ => none) firstRig)
        (connect (serve tameCrates (fun _ => []) []) 1 256 firstRig) shortRun ∧
      Guarded (step tameCrates (fun _ => []) (fun _ => none))
        (Passes tameCrates (fun _ => []) (fun _ => none) firstRig)
        (connect (serve tameCrates (fun _ => []) []) 1 256 firstRig) shortRun :=
  submissions_in_order tameCrates (fun _ => []) (fun _ => none) firstRig [] 1 256
    (by simp [shortRun, Whole])

/-- One of its two submissions has come to the server. -/
example : (run (step tameCrates (fun _ => []) (fun _ => none))
    (connect (serve tameCrates (fun _ => []) []) 1 256 firstRig) shortRun).judged.map (·.nonce) =
      [7] := by decide +kernel

end Examples

end StratumPool.Vampire
