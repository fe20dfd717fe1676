import StratumPool.Reader
import StratumPool.Session

namespace StratumPool.Wire

open Lib Lib.Runs StratumPool.Text StratumPool.Json StratumPool.Kaspa StratumPool.Jobs
open StratumPool.Session (RpcRequest Message accept)
open StratumPool.Session.Message (response notification toText)
open StratumPool.Server (serve step_outcome tameCrates)

section Payloads

variable {Body : Type} (crates : Crates)

def notifyValue (jobId param : Str) : Value Float :=
  .object [(lit "id", .null), (lit "method", .string (lit "mining.notify")),
    (lit "params", .array [.string jobId, .string param])]

def IsNotify (payload : Str) : Prop :=
  ∃ counter param, payload = render (fun _ => []) (notifyValue (lowHex counter) param) ++ ['\n']

theorem isNotify_notifyPayload (counter : UInt64) (header : Header) (timestamp : UInt64) :
    IsNotify (notifyPayload crates (lowHex counter) header timestamp) :=
  ⟨counter, largeJobParam crates header timestamp, rfl⟩

/-- Whatever the job manager hands to the miners is a `mining.notify`. -/
structure Payloads (manager : JobManager Body) : Prop where
  called : ∀ call ∈ manager.calls, IsNotify call.job.payload
  cached : ∀ payload ∈ manager.cachedJob, IsNotify payload
  sent : ∀ job ∈ manager.jobTx, IsNotify job.payload

theorem payloads_new : Payloads (Jobs.new Body) :=
  ⟨by simp [Jobs.new], by simp [Jobs.new], by simp [Jobs.new]⟩

theorem payloads_newBlock {manager : JobManager Body} (h : Payloads manager)
    (block : RpcBlock Body) : Payloads (newBlock crates manager block) := by
  rw [newBlock]
  cases block.header with
  | none => exact h
  | some rpcHeader =>
    cases hconv : consensusHeader crates rpcHeader with
    | none => simpa only [hconv] using h
    | some header =>
      simp only [hconv]
      refine ⟨List.forall_mem_append.mpr ⟨h.called, ?_⟩, h.cached, h.sent⟩
      intro call hcall
      rw [List.mem_singleton.mp hcall]
      exact isNotify_notifyPayload crates _ _ _

theorem payloads_advance {manager : JobManager Body} (h : Payloads manager) (index : Nat) :
    Payloads (advance manager index) := by
  rw [advance]
  cases hcall : manager.calls[index]? with
  | none => exact h
  | some call =>
    obtain ⟨job, entry, stage⟩ := call
    have hjob : IsNotify job.payload := h.called _ (List.mem_of_getElem? hcall)
    have hset : ∀ stage, ∀ c ∈ manager.calls.set index ⟨job, entry, stage⟩,
        IsNotify c.job.payload := by
      intro stage c hc
      obtain hc | rfl := List.mem_or_eq_of_mem_set hc
      · exact h.called c hc
      · exact hjob
    cases stage with
    | converted => exact ⟨hset .inserted, h.cached, h.sent⟩
    | inserted => exact ⟨hset .stamped, h.cached, h.sent⟩
    | stamped =>
      refine ⟨hset .cached, ?_, h.sent⟩
      intro payload hp
      cases hp
      exact hjob
    | cached =>
      refine ⟨fun c hc => h.called c (List.mem_of_mem_eraseIdx hc), h.cached, ?_⟩
      exact List.forall_mem_append.mpr ⟨h.sent, by simpa using hjob⟩

theorem payloads_step {manager : JobManager Body} (h : Payloads manager) (a : Jobs.Action Body) :
    Payloads (Jobs.step crates manager a) := by
  cases a with
  | newBlock block => exact payloads_newBlock crates h block
  | advance index => exact payloads_advance h index
  | scan =>
    rw [Jobs.step, scan]
    split <;> exact ⟨h.called, h.cached, h.sent⟩
  | collect =>
    rw [Jobs.step, collect]
    split
    · exact h
    · split <;> exact ⟨h.called, h.cached, h.sent⟩
  | wait millis => exact ⟨h.called, h.cached, h.sent⟩

theorem payloads_server (float : Float → Str) {server : Server.State Body}
    (h : Payloads server.jobs) (a : Server.Action Body) :
    Payloads (Server.step crates float server a).jobs := by
  rw [(step_outcome crates float server a).jobs]
  cases a with
  | jobs action => exact payloads_step crates h action
  | _ => exact h

theorem payloads_serve (float : Float → Str) (before : List (Server.Action Body)) :
    Payloads (serve crates float before).jobs :=
  (always_of_invariant (I := fun server : Server.State Body => Payloads server.jobs)
    payloads_new (fun _ a h => payloads_server crates float h a) before).last

end Payloads

section Lines

variable (float : Float → Str) (scan : Str → Option Float)

/-- The value on the line of a message. -/
inductive Says : Message → Value Float → Prop where
  | reply (id result : Value Float) : Says (.reply id result) (response id result)
  | setExtranonce (extranonce1 : Str) : Says (.setExtranonce extranonce1)
      (notification (lit "mining.set_extranonce") [.string extranonce1])
  | setDifficulty (difficulty : UInt64) : Says (.setDifficulty difficulty)
      (notification (lit "mining.set_difficulty") [.number (.posInt difficulty.toNat)])
  | job (counter : UInt64) (param : Str) : Says
      (.job (render (fun _ => []) (notifyValue (lowHex counter) param) ++ ['\n']))
      (notifyValue (lowHex counter) param)

theorem Says.text {message : Message} {v : Value Float} (h : Says message v) :
    toText float message = render float v ++ ['\n'] := by
  cases h <;> rfl

/-- All that a miner's socket has got. -/
def socketText (written : List Message) : Str := written.flatMap (toText float)

/-- The lines of a text that have their end. -/
def completeLines (text : Str) : List Str := (text.splitOn '\n').dropLast

def Readables (message : Message) : Prop := ∃ v, Says message v ∧ Readable float scan v

variable {float scan}

theorem exists_values {written : List Message} (h : ∀ m ∈ written, Readables float scan m) :
    ∃ values, List.Forall₂ Says written values ∧ ∀ v ∈ values, Readable float scan v := by
  induction written with
  | nil => exact ⟨[], .nil, by simp⟩
  | cons m written ih =>
    obtain ⟨v, hsaid, hv⟩ := h m List.mem_cons_self
    obtain ⟨values, hall, hread⟩ := ih (fun m hm => h m (List.mem_cons_of_mem _ hm))
    exact ⟨v :: values, .cons hsaid hall, List.forall_mem_cons.mpr ⟨hv, hread⟩⟩

theorem socketText_eq {written : List Message} {values : List (Value Float)}
    (h : List.Forall₂ Says written values) :
    socketText float written = values.flatMap (fun v => render float v ++ ['\n']) := by
  induction h with
  | nil => rfl
  | cons hsaid _ ih =>
    rw [socketText, List.flatMap_cons, ← socketText, ih, hsaid.text, List.flatMap_cons]

theorem newline_not_mem {v : Value Float} (h : Readable float scan v) : '\n' ∉ render float v :=
  fun hmem => absurd (printable_render v h '\n' hmem) (by decide)

theorem split_values {values : List (Value Float)} (h : ∀ v ∈ values, Readable float scan v) :
    (values.flatMap (fun v => render float v ++ ['\n'])).splitOn '\n' =
      values.map (render float) ++ [[]] := by
  induction values with
  | nil => rfl
  | cons v values ih =>
    obtain ⟨hv, hvalues⟩ := List.forall_mem_cons.mp h
    rw [List.flatMap_cons, List.append_assoc, List.singleton_append,
      List.splitOn_append_cons_self_of_not_mem (newline_not_mem hv), ih hvalues]
    rfl

end Lines

section Stream

variable {Body : Type} (crates : Crates) (float : Float → Str) (scan : Str → Option Float)
  (parse : Str → Option RpcRequest)

/-- The reader of the requests gives ids that can be printed: no float that
JSON does not have, and no negative form of a number that is not negative. -/
def ReadableIds : Prop := ∀ line req, parse line = some req → Readable float scan req.reqId

/-- What is on its way to the socket, and what is there. -/
structure Spoken (state : Session.State Body) : Prop where
  payloads : Payloads state.server.jobs
  pending : ∀ payload ∈ state.pending, IsNotify payload
  written : ∀ m ∈ state.written, Readables float scan m

theorem spoken_accept (before : List (Server.Action Body)) (connId currentDiff : UInt64) :
    Spoken float scan (accept (serve crates float before) connId currentDiff) :=
  ⟨payloads_serve crates float before, by simp [accept], by simp [accept]⟩

variable {float scan}

theorem readables_job {payload : Str} (h : IsNotify payload) :
    Readables float scan (.job payload) := by
  obtain ⟨counter, param, rfl⟩ := h
  exact ⟨_, .job counter param,
    by simp [notifyValue, Readable, ReadableFields, ReadableItems]⟩

theorem readables_difficulty (difficulty : UInt64) :
    Readables float scan (.setDifficulty difficulty) :=
  ⟨_, .setDifficulty difficulty,
    by simp [notification, Readable, ReadableFields, ReadableItems, Number.Readable]⟩

theorem readables_reply {req : RpcRequest} (h : Readable float scan req.reqId) :
    Readables float scan (Session.plainReply req) ∧
      Readables float scan (Session.subscribeReply req) :=
  ⟨⟨_, .reply _ _, by simp [response, Readable, ReadableFields, h]⟩,
    ⟨_, .reply _ _, by simp [response, Readable, ReadableFields, ReadableItems, h]⟩⟩

theorem spoken_handle {state : Session.State Body} (h : Spoken float scan state) {req : RpcRequest}
    (hid : Readable float scan req.reqId) :
    Spoken float scan (Session.handle crates float state req) := by
  obtain ⟨hplain, hsubscribe⟩ := readables_reply hid
  rw [Session.handle]
  split
  · rw [Session.serve]
    refine ⟨?_, h.pending, ?_⟩
    · simp only
      split
      · exact payloads_server crates float h.payloads _
      · exact h.payloads
    · exact List.forall_mem_append.mpr ⟨h.written, by simpa using hplain⟩
  · rw [Session.shake]
    split
    · refine ⟨h.payloads, h.pending, List.forall_mem_append.mpr ⟨h.written, ?_⟩⟩
      refine List.forall_mem_cons.mpr ⟨hsubscribe, ?_⟩
      intro m hm
      obtain ⟨conn, -, rfl⟩ := Option.map_eq_some_iff.mp (Option.mem_toList.mp hm)
      exact ⟨_, .setExtranonce _,
        by simp [notification, Readable, ReadableFields, ReadableItems]⟩
    · split
      · exact ⟨h.payloads, h.pending,
          List.forall_mem_append.mpr ⟨h.written, by simpa using hplain⟩⟩
      · exact h

theorem spoken_receive {state : Session.State Body} (h : Spoken float scan state) :
    Spoken float scan (Session.receive state) := by
  rw [Session.receive]
  split
  · exact ⟨h.payloads, h.pending, h.written⟩
  · rename_i next job hrecv
    refine ⟨h.payloads, ?_, h.written⟩
    intro payload hp
    cases hp
    exact h.payloads.sent job (Broadcast.mem_of_recv hrecv)

theorem readable_requestOf (hids : ReadableIds float scan parse) {state : Session.State Body}
    {a : Session.Action Body} {req : RpcRequest} (h : Session.requestOf parse state a = some req) :
    Readable float scan req.reqId := by
  cases a with
  | read line =>
    cases line with
    | none => cases h
    | some line =>
      simp only [Session.requestOf, Option.ite_none_right_eq_some, Session.readRequest,
        Option.ite_none_left_eq_some] at h
      exact hids _ req h.2.2
  | _ => cases h

theorem spoken_step {state : Session.State Body} (h : Spoken float scan state)
    (a : Session.Action Body)
    (hid : ∀ req, Session.requestOf parse state a = some req → Readable float scan req.reqId) :
    Spoken float scan (Session.step crates float parse state a) := by
  cases a with
  | read line =>
    cases hreq : Session.requestOf parse state (.read line) with
    | none =>
      obtain hstep | ⟨-, hstep⟩ := Session.read_cases crates float parse hreq
      · rw [hstep]
        exact h
      · rw [hstep]
        exact ⟨h.payloads, h.pending, h.written⟩
    | some req =>
      rw [(Session.step_of_request crates float parse hreq).1]
      exact spoken_handle crates h (hid req hreq)
  | greet =>
    simp only [Session.step]
    split
    · refine ⟨h.payloads, h.pending, List.forall_mem_append.mpr ⟨h.written, ?_⟩⟩
      refine List.forall_mem_append.mpr ⟨?_, ?_⟩
      · intro m hm
        obtain ⟨conn, -, rfl⟩ := Option.map_eq_some_iff.mp (Option.mem_toList.mp hm)
        exact readables_difficulty _
      · intro m hm
        obtain ⟨payload, hp, rfl⟩ := Option.map_eq_some_iff.mp (Option.mem_toList.mp hm)
        exact readables_job (h.payloads.cached payload hp)
    · exact h
  | receive =>
    simp only [Session.step]
    split
    · exact spoken_receive h
    · exact h
  | tick =>
    simp only [Session.step]
    split
    · refine ⟨h.payloads, by simp, List.forall_mem_append.mpr ⟨h.written, ?_⟩⟩
      intro m hm
      obtain ⟨payload, hp, rfl⟩ := Option.map_eq_some_iff.mp (Option.mem_toList.mp hm)
      exact readables_job (h.pending payload hp)
    · exact h
  | retarget newDiff =>
    simp only [Session.step]
    split
    · refine ⟨payloads_server crates float h.payloads _, h.pending,
        List.forall_mem_append.mpr ⟨h.written, ?_⟩⟩
      intro m hm
      obtain ⟨difficulty, -, rfl⟩ := List.mem_map.mp hm
      exact readables_difficulty difficulty
    · exact h
  | elsewhere action => exact ⟨payloads_server crates float h.payloads _, h.pending, h.written⟩

/-- Whatever a client sends, and whatever ids it makes up: the text on its
socket splits at the line ends into one line for each message, and each line is
read as the value of its message. -/
theorem stream_read_back (hids : ReadableIds float scan parse) (before : List (Server.Action Body))
    (connId currentDiff : UInt64) (as : List (Session.Action Body)) :
    let written := (run (Session.step crates float parse)
      (accept (serve crates float before) connId currentDiff) as).written
    ∃ values, List.Forall₂ Says written values ∧
      (completeLines (socketText float written)).map (readText scan) = values.map some ∧
      socketText float written =
        (completeLines (socketText float written)).flatMap (· ++ ['\n']) := by
  intro written
  have hstart := spoken_accept crates float scan before connId currentDiff
  have hspoken := always_of_invariant hstart
    (fun _ a h => spoken_step crates parse h a fun _ => readable_requestOf parse hids) as
  obtain ⟨values, hsaid, hread⟩ := exists_values hspoken.last.written
  have hlines : completeLines (socketText float written) = values.map (render float) := by
    rw [completeLines, socketText_eq hsaid, split_values hread, List.dropLast_concat]
  refine ⟨values, hsaid, ?_, ?_⟩
  · rw [hlines, List.map_map]
    exact List.map_congr_left fun v hv => readText_render (hread v hv)
  · rw [hlines, socketText_eq hsaid, List.flatMap_map]

end Stream

section Examples

/-- A client whose id is the line it would like the pool to write. -/
def forgedId : RpcRequest :=
  ⟨some (.string (lit "\n\x7b\"method\":\"mining.notify\"\x7d")),
    some (lit "mining.subscribe"), none⟩

theorem forged_id_read_back :
    let written := (run (Session.step tameCrates (fun _ => []) (fun _ => some forgedId))
      (accept (serve tameCrates (fun _ => []) []) 1 1)
      ([.read (some (lit "x"))] : List (Session.Action Unit))).written
    ∃ values, List.Forall₂ Says written values ∧
      (completeLines (socketText (fun _ => []) written)).map (readText (fun _ => none)) =
        values.map some ∧
      socketText (fun _ => []) written =
        (completeLines (socketText (fun _ => []) written)).flatMap (· ++ ['\n']) := by
  apply stream_read_back
  intro line req h
  cases h
  trivial

end Examples

end StratumPool.Wire
