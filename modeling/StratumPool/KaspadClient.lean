import StratumPool.Credit

namespace StratumPool.KaspadClient

open Lib Lib.Runs StratumPool.Text StratumPool.Json StratumPool.Kaspa StratumPool.DiffEngine
  StratumPool.Jobs StratumPool.Submit
open StratumPool.Server (foundBlock step_outcome template shareParams)
open StratumPool.BlockRelay (kept foundBy take_spec luckyCrates)

inductive RequestPayload (Body : Type) where
  | notifyBlockAdded (command : Nat)
  | getBlockTemplate (payAddress extraData : Str)
  | submitBlock (block : RpcBlock Body) (allowNonDaaBlocks : Bool)

structure KaspadRequest (Body : Type) where
  id : UInt64
  payload : RequestPayload Body

/-- The answers and notifications of the node that the client reads. Of the
answer with a template it reads the block alone. -/
inductive ResponsePayload (Body : Type) where
  | getBlockTemplate (block : Option (RpcBlock Body))
  | blockAdded
  | submitBlock (error : Option Str)
  | other

/-- How far `start_kaspad_client` has come: it has spawned the forwarder, has
asked for notifications, reads the node's messages, or is at its end. -/
inductive Stage where
  | connected | notified | listening | ended
  deriving DecidableEq

/-- `redisAddress` is the key `perennia:stratum:mining_address`. `requests` is
what entered the stream to the node, `templates` and `addresses` are the history
of the blocks the node proposed and of the addresses the key has held. -/
structure State (Body : Type) where
  relay : BlockRelay.State Body
  stage : Stage
  reqId : UInt64
  redisAddress : Option Str
  syncStatus : Option Str
  requests : List (KaspadRequest Body)
  templates : List (RpcBlock Body)
  addresses : List Str

def boot (Body : Type) : State Body :=
  ⟨BlockRelay.boot Body, .connected, 3, none, none, [], [], []⟩

/-- `redisOk` says whether Redis answers. A job is made of a message alone, so
the relay's own `newBlock` is no step here. -/
inductive Action (Body : Type) where
  | relay (action : BlockRelay.Action Body)
  | setAddress (address : Option Str)
  | notify
  | ask (redisOk : Bool)
  | message (response : ResponsePayload Body) (redisOk : Bool)
  | hangUp

section Steps

variable {Body : Type} (crates : Crates) (float : Float → Str) (miningAddress : Str)

/-- The address of the configuration, unless Redis has another one. -/
def payAddress (state : State Body) (redisOk : Bool) : Str :=
  match redisOk, state.redisAddress with
  | true, some addr => if addr.isEmpty then miningAddress else addr
  | _, _ => miningAddress

def templateRequest (state : State Body) (redisOk : Bool) : RequestPayload Body :=
  .getBlockTemplate (payAddress miningAddress state redisOk) (lit "Perennia-Zero-Allocation")

/-- A send into the stream to the node. -/
def send (state : State Body) (request : KaspadRequest Body) : State Body :=
  if state.relay.streamOpen then { state with requests := state.requests ++ [request] } else state

/-- What the forwarder sends. -/
def submitRequest (block : RpcBlock Body) : KaspadRequest Body := ⟨999, .submitBlock block false⟩

def deliver (state : State Body) : State Body :=
  let sent := state.relay.hand.elim state (fun block => send state (submitRequest block))
  { sent with relay := BlockRelay.step crates float state.relay .deliver }

/-- A message of the node. The task reads the next one when the job of the last
one is out. -/
def receive (state : State Body) (response : ResponsePayload Body) (redisOk : Bool) : State Body :=
  match response with
  | .getBlockTemplate (some block) =>
      if block.header.isSome then
        { state with
          relay := BlockRelay.step crates float state.relay (.server (.jobs (.newBlock block)))
          syncStatus := if redisOk then some (lit "Online (Toccata Core)") else state.syncStatus
          templates := state.templates ++ [block] }
      else state
  | .blockAdded =>
      let next := { state with reqId := state.reqId + 1 }
      send next ⟨next.reqId, templateRequest miningAddress state redisOk⟩
  | _ => state

def step (state : State Body) : Action Body → State Body
  | .relay (.server (.jobs (.newBlock _))) => state
  | .relay .deliver => deliver crates float state
  | .relay action => { state with relay := BlockRelay.step crates float state.relay action }
  | .setAddress address =>
      { state with
        redisAddress := address
        addresses := state.addresses ++ address.toList }
  | .notify =>
      if state.stage = .connected then
        { send state ⟨1, .notifyBlockAdded 0⟩ with
          stage := if state.relay.streamOpen then .notified else .ended }
      else state
  | .ask redisOk =>
      if state.stage = .notified then
        { send state ⟨2, templateRequest miningAddress state redisOk⟩ with
          stage := if state.relay.streamOpen then .listening else .ended }
      else state
  | .message response redisOk =>
      if state.stage = .listening ∧ state.relay.server.jobs.calls = [] then
        receive crates float miningAddress state response redisOk
      else state
  | .hangUp => { state with stage := .ended }

end Steps

section Blocks

variable {Body : Type} (crates : Crates) (float : Float → Str) (miningAddress : Str)

/-- A job is the conversion of a block that the node proposed. -/
structure FromNode (templates : List (RpcBlock Body)) (entry : JobEntry Body) : Prop where
  proposed : entry.2 ∈ templates
  converted : ∃ rpcHeader, entry.2.header = some rpcHeader ∧
    consensusHeader crates rpcHeader = some entry.1

/-- A block that the node proposed, with a nonce that meets the network target
and nothing else changed. -/
def Won (templates : List (RpcBlock Body)) (block : RpcBlock Body) : Prop :=
  ∃ header proposed nonce, FromNode crates templates (header, proposed) ∧
    (crates.checkPow { header with nonce } nonce).1 = true ∧ block = withNonce proposed nonce

variable {crates} in
theorem FromNode.mono {templates templates' : List (RpcBlock Body)} {entry : JobEntry Body}
    (h : FromNode crates templates entry) (hsub : templates ⊆ templates') :
    FromNode crates templates' entry :=
  ⟨hsub h.proposed, h.converted⟩

variable {crates} in
theorem Won.mono {templates templates' : List (RpcBlock Body)} {block : RpcBlock Body}
    (h : Won crates templates block) (hsub : templates ⊆ templates') :
    Won crates templates' block := by
  obtain ⟨header, proposed, nonce, hfrom, hpow, hblock⟩ := h
  exact ⟨header, proposed, nonce, hfrom.mono hsub, hpow, hblock⟩

/-- Every job and every call on its way to one. -/
structure JobsFrom (templates : List (RpcBlock Body)) (manager : JobManager Body) : Prop where
  called : ∀ call ∈ manager.calls, FromNode crates templates call.entry
  active : ∀ id entry, manager.activeJobs.lookup id = some entry →
    FromNode crates templates entry

theorem jobsFrom_new : JobsFrom crates [] (Jobs.new Body) :=
  ⟨by simp [Jobs.new], by simp [Jobs.new]⟩

variable {crates}

theorem JobsFrom.mono {templates templates' : List (RpcBlock Body)} {manager : JobManager Body}
    (h : JobsFrom crates templates manager) (hsub : templates ⊆ templates') :
    JobsFrom crates templates' manager :=
  ⟨fun call hc => (h.called call hc).mono hsub, fun id entry hl => (h.active id entry hl).mono hsub⟩

theorem JobsFrom.newBlock {templates : List (RpcBlock Body)} {manager : JobManager Body}
    (h : JobsFrom crates templates manager) {block : RpcBlock Body} (hblock : block ∈ templates) :
    JobsFrom crates templates (newBlock crates manager block) := by
  rw [Jobs.newBlock]
  cases hheader : block.header with
  | none => exact h
  | some rpcHeader =>
    cases hconv : consensusHeader crates rpcHeader with
    | none => simpa only [hconv] using h
    | some header =>
      simp only [hconv]
      refine ⟨List.forall_mem_append.mpr ⟨h.called, ?_⟩, h.active⟩
      intro call hcall
      rw [List.mem_singleton.mp hcall]
      exact ⟨hblock, rpcHeader, hheader, hconv⟩

theorem JobsFrom.advance {templates : List (RpcBlock Body)} {manager : JobManager Body}
    (h : JobsFrom crates templates manager) (index : Nat) :
    JobsFrom crates templates (advance manager index) := by
  rw [Jobs.advance]
  cases hcall : manager.calls[index]? with
  | none => exact h
  | some call =>
    obtain ⟨job, entry, stage⟩ := call
    have hentry : FromNode crates templates entry := h.called _ (List.mem_of_getElem? hcall)
    have hset : ∀ stage, ∀ c ∈ manager.calls.set index ⟨job, entry, stage⟩,
        FromNode crates templates c.entry := by
      intro stage c hc
      obtain hc | rfl := List.mem_or_eq_of_mem_set hc
      · exact h.called c hc
      · exact hentry
    cases stage with
    | converted =>
      refine ⟨hset .inserted, ?_⟩
      intro id found hl
      by_cases hid : id = job.jobId
      · rw [hid, AList.lookup_insert] at hl
        cases hl
        exact hentry
      · rw [AList.lookup_insert_ne hid] at hl
        exact h.active id found hl
    | inserted => exact ⟨hset .stamped, h.active⟩
    | stamped => exact ⟨hset .cached, h.active⟩
    | cached => exact ⟨fun c hc => h.called c (List.mem_of_mem_eraseIdx hc), h.active⟩

theorem JobsFrom.step {templates : List (RpcBlock Body)} {manager : JobManager Body}
    (h : JobsFrom crates templates manager) (a : Jobs.Action Body)
    (ha : ∀ block, a = .newBlock block → block ∈ templates) :
    JobsFrom crates templates (Jobs.step crates manager a) := by
  cases a with
  | newBlock block => exact h.newBlock (ha block rfl)
  | advance index => exact h.advance index
  | scan =>
    rw [Jobs.step, scan]
    split <;> exact ⟨h.called, h.active⟩
  | collect =>
    rw [Jobs.step, collect]
    split
    · exact h
    · rename_i key rest hstale
      split
      · exact ⟨h.called, h.active⟩
      · refine ⟨h.called, ?_⟩
        intro id entry hl
        by_cases hid : id = key
        · rw [hid, AList.lookup_erase] at hl
          cases hl
        · rw [AList.lookup_erase_ne hid] at hl
          exact h.active id entry hl
  | wait millis => exact ⟨h.called, h.active⟩

theorem active_of_networkBlock {activeJobs : Table Str (JobEntry Body)} {currentDiff : UInt64}
    {submission : Submission} {header : Header} {rpcBlock : RpcBlock Body}
    (h : judge crates activeJobs currentDiff submission = .networkBlock header rpcBlock) :
    activeJobs.lookup submission.jobId = some (header, rpcBlock) ∧
      (crates.checkPow { header with nonce := submission.nonce } submission.nonce).1 = true := by
  rw [judge] at h
  cases hjob : activeJobs.lookup submission.jobId with
  | none => simp [hjob] at h
  | some entry =>
    simp only [hjob] at h
    cases hblock : (verifyShare crates entry.1 submission.nonce currentDiff.toFloat).2 with
    | true =>
      simp only [hblock, if_true] at h
      cases h
      exact ⟨rfl, hblock⟩
    | false =>
      simp only [hblock, Bool.false_eq_true, if_false] at h
      split at h <;> cases h

/-- A block that is found is won from a job that is active. -/
theorem JobsFrom.found {templates : List (RpcBlock Body)} {server : Server.State Body}
    (h : JobsFrom crates templates server.jobs) {a : Server.Action Body}
    {found : RpcBlock Body × Value Float} (hf : foundBlock crates float server a = some found) :
    Won crates templates found.1 := by
  rw [foundBlock] at hf
  split at hf
  · rename_i conn submission header rpcBlock hverdict
    cases hf
    obtain ⟨hactive, hpow⟩ :=
      active_of_networkBlock (Credit.judge_of_verdictOf crates float hverdict)
    exact ⟨header, rpcBlock, submission.nonce, h.active _ _ hactive, hpow, rfl⟩
  · cases hf

variable (crates)

/-- A block that the relay has after a step it had before, or the step found it. -/
theorem kept_of_step (relay : BlockRelay.State Body) (a : BlockRelay.Action Body) :
    ∀ block ∈ kept (BlockRelay.step crates float relay a), block ∈ kept relay ∨
      ∃ found, foundBy crates float relay a = some found ∧ found.1 = block := by
  intro block hb
  cases a with
  | server action =>
    by_cases ha : action = .forwardBlock
    · subst ha
      exact .inl ((take_spec relay).2.2.mem_iff.mp hb)
    · rw [BlockRelay.step_server crates float relay action ha, kept,
        BlockRelay.server_blocks crates float relay.server action ha] at hb
      cases hf : foundBlock crates float relay.server action with
      | none =>
        rw [hf] at hb
        exact .inl hb
      | some found =>
        rw [hf, Option.elim_some, Channel.queue_trySend] at hb
        simp only [List.mem_append] at hb
        obtain ((hb | hb) | hb) | hb := hb
        · exact .inl (by simp [kept, hb])
        · split at hb
          · exact .inr ⟨found, hf, (List.mem_singleton.mp hb).symm⟩
          · cases hb
        · exact .inl (by simp [kept, Option.mem_toList.mp hb])
        · exact .inl (by simp [kept, hb])
  | deliver =>
    left
    simp only [BlockRelay.step, kept, Option.toList_none, List.append_nil, List.mem_append] at hb
    obtain hb | hb := hb
    · simp [kept, hb]
    · split at hb
      · obtain hb | hb := List.mem_append.mp hb
        · simp [kept, hb]
        · simp [kept, Option.mem_toList.mp hb]
      · simp [kept, hb]
  | closeStream => exact .inl hb
  | stopForwarder =>
    left
    simp only [BlockRelay.step, kept, Channel.close, Option.toList_none, List.nil_append] at hb
    simp [kept, hb]

theorem jobs_of_step (relay : BlockRelay.State Body) (a : BlockRelay.Action Body) :
    (BlockRelay.step crates float relay a).server.jobs =
      match a with
      | .server (.jobs action) => Jobs.step crates relay.server.jobs action
      | _ => relay.server.jobs := by
  cases a with
  | server action =>
    by_cases ha : action = .forwardBlock
    · subst ha
      simp only [BlockRelay.step, BlockRelay.take]
      split
      · split <;> rfl
      · rfl
    · rw [BlockRelay.step_server crates float relay action ha,
        (step_outcome crates float relay.server action).jobs]
      cases action <;> rfl
  | _ => rfl

end Blocks

section Messages

variable {Body : Type} (crates : Crates) (float : Float → Str) (miningAddress : Str)

/-- What a step is to the relay. -/
def relayAct (state : State Body) : Action Body → Option (BlockRelay.Action Body)
  | .relay (.server (.jobs (.newBlock _))) => none
  | .relay action => some action
  | .message (.getBlockTemplate (some block)) _ =>
      if (state.stage = .listening ∧ state.relay.server.jobs.calls = []) ∧
          block.header.isSome = true then
        some (.server (.jobs (.newBlock block)))
      else none
  | _ => none

/-- The requests a step makes. -/
def requestsOf (state : State Body) : Action Body → List (KaspadRequest Body)
  | .relay .deliver => state.relay.hand.toList.map submitRequest
  | .notify => if state.stage = .connected then [⟨1, .notifyBlockAdded 0⟩] else []
  | .ask redisOk =>
      if state.stage = .notified then [⟨2, templateRequest miningAddress state redisOk⟩] else []
  | .message .blockAdded redisOk =>
      if state.stage = .listening ∧ state.relay.server.jobs.calls = [] then
        [⟨state.reqId + 1, templateRequest miningAddress state redisOk⟩]
      else []
  | _ => []

/-- Those that reach the stream. -/
def sentBy (state : State Body) (a : Action Body) : List (KaspadRequest Body) :=
  if state.relay.streamOpen then requestsOf miningAddress state a else []

/-- The address that a step writes to Redis. -/
def addressesOf : Action Body → List Str
  | .setAddress address => address.toList
  | _ => []

def addressAfter (state : State Body) : Action Body → Option Str
  | .setAddress address => address
  | _ => state.redisAddress

/-- The blocks that the node proposes in a step. -/
def proposedBy (state : State Body) : Action Body → List (RpcBlock Body)
  | .message (.getBlockTemplate (some block)) _ =>
      if (state.stage = .listening ∧ state.relay.server.jobs.calls = []) ∧
          block.header.isSome = true then [block]
      else []
  | _ => []

/-- What any step does to the relay, the requests and the history. -/
structure Outcome (state after : State Body) (a : Action Body) : Prop where
  relay : after.relay =
    (relayAct state a).elim state.relay (BlockRelay.step crates float state.relay)
  requests : after.requests = state.requests ++ sentBy miningAddress state a
  templates : after.templates = state.templates ++ proposedBy state a
  addresses : after.addresses = state.addresses ++ addressesOf a
  redisAddress : after.redisAddress = addressAfter state a

theorem send_eq (state : State Body) (request : KaspadRequest Body) :
    send state request =
      { state with
        requests := state.requests ++ if state.relay.streamOpen then [request] else [] } := by
  rw [send]
  split
  · rfl
  · simp only [List.append_nil]

/-- A step that sends nothing and hears nothing of the node. -/
theorem outcome_silent {state after : State Body} {a : Action Body}
    (hafter : after =
      { state with
        relay := (relayAct state a).elim state.relay (BlockRelay.step crates float state.relay)
        stage := after.stage, reqId := after.reqId, syncStatus := after.syncStatus })
    (hsent : sentBy miningAddress state a = []) (hproposed : proposedBy state a = [])
    (ha : ∀ address, a ≠ .setAddress address) :
    Outcome crates float miningAddress state after a where
  relay := by rw [hafter]
  requests := by rw [hafter, hsent, List.append_nil]
  templates := by rw [hafter, hproposed, List.append_nil]
  addresses := by
    have hnone : addressesOf a = [] := by
      cases a with
      | setAddress address => exact absurd rfl (ha address)
      | _ => rfl
    rw [hafter, hnone, List.append_nil]
  redisAddress := by
    have hsame : addressAfter state a = state.redisAddress := by
      cases a with
      | setAddress address => exact absurd rfl (ha address)
      | _ => rfl
    rw [hafter, hsame]

theorem outcome_relay (state : State Body) (action : BlockRelay.Action Body) :
    Outcome crates float miningAddress state
      (step crates float miningAddress state (.relay action)) (.relay action) := by
  cases action with
  | deliver =>
    simp only [step, deliver]
    cases hhand : state.relay.hand with
    | none => exact ⟨rfl, by simp [sentBy, requestsOf, hhand], by simp [proposedBy], by simp [addressesOf], rfl⟩
    | some block =>
      simp only [Option.elim_some, send_eq]
      refine ⟨rfl, ?_, by simp [proposedBy], by simp [addressesOf], rfl⟩
      simp [sentBy, requestsOf, hhand]
  | server action =>
    have hsent : sentBy miningAddress state (.relay (.server action)) = [] := by simp [sentBy, requestsOf]
    cases action with
    | jobs action =>
      cases action with
      | newBlock block => exact outcome_silent crates float miningAddress rfl hsent rfl (by simp)
      | _ => exact outcome_silent crates float miningAddress rfl hsent rfl (by simp)
    | _ => exact outcome_silent crates float miningAddress rfl hsent rfl (by simp)
  | closeStream =>
    exact outcome_silent crates float miningAddress rfl (by simp [sentBy, requestsOf]) rfl (by simp)
  | stopForwarder =>
    exact outcome_silent crates float miningAddress rfl (by simp [sentBy, requestsOf]) rfl (by simp)

theorem outcome_message (state : State Body) (response : ResponsePayload Body) (redisOk : Bool) :
    Outcome crates float miningAddress state
      (step crates float miningAddress state (.message response redisOk))
      (.message response redisOk) := by
  simp only [step]
  by_cases hready : state.stage = .listening ∧ state.relay.server.jobs.calls = []
  · rw [if_pos hready]
    cases response with
    | getBlockTemplate block =>
      cases block with
      | none => exact outcome_silent crates float miningAddress rfl (by simp [sentBy, requestsOf]) rfl (by simp)
      | some block =>
        simp only [receive]
        by_cases hheader : block.header.isSome = true
        · rw [if_pos hheader]
          refine ⟨?_, by simp [sentBy, requestsOf], ?_, by simp [addressesOf], rfl⟩
          · simp [relayAct, hready, hheader]
          · simp [proposedBy, hready, hheader]
        · rw [if_neg hheader]
          refine outcome_silent crates float miningAddress ?_ (by simp [sentBy, requestsOf]) ?_ (by simp)
          · simp [relayAct, hheader]
          · simp [proposedBy, hheader]
    | blockAdded =>
      simp only [receive, send_eq]
      refine ⟨rfl, ?_, by simp [proposedBy], by simp [addressesOf], rfl⟩
      simp [sentBy, requestsOf, hready]
    | submitBlock error =>
      exact outcome_silent crates float miningAddress rfl (by simp [sentBy, requestsOf]) rfl (by simp)
    | other =>
      exact outcome_silent crates float miningAddress rfl (by simp [sentBy, requestsOf]) rfl (by simp)
  · rw [if_neg hready]
    cases response with
    | getBlockTemplate block =>
      cases block with
      | none => exact outcome_silent crates float miningAddress rfl (by simp [sentBy, requestsOf]) rfl (by simp)
      | some block =>
        refine outcome_silent crates float miningAddress ?_ (by simp [sentBy, requestsOf]) ?_ (by simp)
        · simp [relayAct, hready]
        · simp [proposedBy, hready]
    | blockAdded =>
      exact outcome_silent crates float miningAddress rfl (by simp [sentBy, requestsOf, hready]) rfl (by simp)
    | submitBlock error =>
      exact outcome_silent crates float miningAddress rfl (by simp [sentBy, requestsOf]) rfl (by simp)
    | other =>
      exact outcome_silent crates float miningAddress rfl (by simp [sentBy, requestsOf]) rfl (by simp)

theorem outcome_step (state : State Body) (a : Action Body) :
    Outcome crates float miningAddress state (step crates float miningAddress state a) a := by
  cases a with
  | relay action => exact outcome_relay crates float miningAddress state action
  | message response redisOk => exact outcome_message crates float miningAddress state response redisOk
  | setAddress address =>
    exact ⟨rfl, by simp [step, sentBy, requestsOf], by simp [step, proposedBy], rfl, rfl⟩
  | notify =>
    simp only [step]
    split
    · rename_i hstage
      rw [send_eq]
      exact ⟨rfl, by simp [sentBy, requestsOf, hstage], by simp [proposedBy], by simp [addressesOf], rfl⟩
    · rename_i hstage
      exact outcome_silent crates float miningAddress rfl (by simp [sentBy, requestsOf, hstage]) rfl (by simp)
  | ask redisOk =>
    simp only [step]
    split
    · rename_i hstage
      rw [send_eq]
      exact ⟨rfl, by simp [sentBy, requestsOf, hstage], by simp [proposedBy], by simp [addressesOf], rfl⟩
    · rename_i hstage
      exact outcome_silent crates float miningAddress rfl (by simp [sentBy, requestsOf, hstage]) rfl (by simp)
  | hangUp => exact outcome_silent crates float miningAddress rfl (by simp [sentBy, requestsOf]) rfl (by simp)

end Messages

section Provenance

variable {Body : Type} (crates : Crates) (float : Float → Str) (miningAddress : Str)

/-- Every job, every block on its way to the node and every block sent to it is
of a block that the node proposed, and wins. -/
structure Traced (state : State Body) : Prop where
  jobs : JobsFrom crates state.templates state.relay.server.jobs
  kept : ∀ block ∈ kept state.relay, Won crates state.templates block
  submitted : ∀ request ∈ state.requests, ∀ block allow,
    request.payload = .submitBlock block allow → Won crates state.templates block

theorem relayAct_newBlock {state : State Body} {a : Action Body} {block : RpcBlock Body}
    (h : relayAct state a = some (.server (.jobs (.newBlock block)))) :
    block ∈ proposedBy state a := by
  cases a with
  | relay action =>
    cases action with
    | server action =>
      cases action with
      | jobs action => cases action <;> simp [relayAct] at h
      | _ => simp [relayAct] at h
    | _ => simp [relayAct] at h
  | message response redisOk =>
    cases response with
    | getBlockTemplate proposed =>
      cases proposed with
      | none => cases h
      | some proposed =>
        simp only [relayAct] at h
        split at h
        · rename_i hready
          cases h
          simp [proposedBy, hready]
        · cases h
    | _ => cases h
  | _ => cases h

/-- A step asks for notifications or for a template, or hands on a block. -/
theorem sentBy_cases {state : State Body} {a : Action Body} {request : KaspadRequest Body}
    (hr : request ∈ sentBy miningAddress state a) :
    request = ⟨1, .notifyBlockAdded 0⟩ ∨
      (∃ id address, request = ⟨id, .getBlockTemplate address (lit "Perennia-Zero-Allocation")⟩) ∨
      ∃ block ∈ kept state.relay, request = submitRequest block := by
  rw [sentBy, List.mem_ite_nil_right] at hr
  obtain ⟨-, hr⟩ := hr
  cases a with
  | relay action =>
    cases action with
    | deliver =>
      obtain ⟨block, hb, rfl⟩ := List.mem_map.mp hr
      exact .inr (.inr ⟨block, by simp [BlockRelay.kept, Option.mem_toList.mp hb], rfl⟩)
    | _ => cases hr
  | notify =>
    rw [requestsOf, List.mem_ite_nil_right] at hr
    exact .inl (List.mem_singleton.mp hr.2)
  | ask redisOk =>
    rw [requestsOf, List.mem_ite_nil_right] at hr
    exact .inr (.inl ⟨2, _, List.mem_singleton.mp hr.2⟩)
  | message response redisOk =>
    cases response with
    | blockAdded =>
      rw [requestsOf, List.mem_ite_nil_right] at hr
      exact .inr (.inl ⟨_, _, List.mem_singleton.mp hr.2⟩)
    | _ => cases hr
  | _ => cases hr

theorem sentBy_submit {state : State Body} {a : Action Body} {request : KaspadRequest Body}
    (hr : request ∈ sentBy miningAddress state a) {block : RpcBlock Body} {allow : Bool}
    (hp : request.payload = .submitBlock block allow) : block ∈ kept state.relay := by
  obtain rfl | ⟨id, address, rfl⟩ | ⟨b, hb, rfl⟩ := sentBy_cases miningAddress hr
  · cases hp
  · cases hp
  · cases hp
    exact hb

theorem traced_step {state : State Body} (h : Traced crates state) (a : Action Body) :
    Traced crates (step crates float miningAddress state a) := by
  have hout := outcome_step crates float miningAddress state a
  have hsub : state.templates ⊆ (step crates float miningAddress state a).templates := by
    rw [hout.templates]
    exact List.subset_append_left _ _
  have hkept : ∀ block ∈ BlockRelay.kept (step crates float miningAddress state a).relay,
      Won crates (step crates float miningAddress state a).templates block := by
    rw [hout.relay]
    intro block hb
    cases hact : relayAct state a with
    | none =>
      rw [hact] at hb
      exact (h.kept block hb).mono hsub
    | some action =>
      rw [hact] at hb
      obtain hb | ⟨found, hf, rfl⟩ := kept_of_step crates float state.relay action block hb
      · exact (h.kept block hb).mono hsub
      · cases action with
        | server action => exact (h.jobs.found float hf).mono hsub
        | _ => cases hf
  refine ⟨?_, hkept, ?_⟩
  · rw [hout.relay]
    cases hact : relayAct state a with
    | none => exact h.jobs.mono hsub
    | some action =>
      rw [Option.elim_some, jobs_of_step]
      split
      · rename_i action
        refine (h.jobs.mono hsub).step action ?_
        rintro block rfl
        rw [hout.templates]
        exact List.mem_append_right _ (relayAct_newBlock hact)
      · exact h.jobs.mono hsub
  · intro request hr block allow hp
    rw [hout.requests] at hr
    obtain hr | hr := List.mem_append.mp hr
    · exact (h.submitted request hr block allow hp).mono hsub
    · exact (h.kept block (sentBy_submit miningAddress hr hp)).mono hsub

theorem traced_run (as : List (Action Body)) :
    Always (step crates float miningAddress) (Traced crates) (boot Body) as := by
  have htraced : Traced crates (boot Body) :=
    ⟨jobsFrom_new crates,
      by simp [boot, BlockRelay.boot, BlockRelay.kept, Server.boot, Channel.empty], by simp [boot]⟩
  exact always_of_invariant htraced (fun _ a h => traced_step crates float miningAddress h a) as

/-- The templates among the messages of the node. -/
def proposals (as : List (Action Body)) : List (RpcBlock Body) :=
  as.filterMap (fun
    | .message (.getBlockTemplate block) _ => block
    | _ => none)

/-- A share submission of the run found the block. -/
def FoundIn (as : List (Action Body)) (block : RpcBlock Body) : Prop :=
  ∃ before index params event, before ++ [.relay (.server (.submit index params))] <+: as ∧
    foundBlock crates float (run (step crates float miningAddress) (boot Body) before).relay.server
      (.submit index params) = some (block, event)

/-- The requests there are: the one for notifications, those for templates, and
blocks that were found. -/
inductive Permitted (as : List (Action Body)) : KaspadRequest Body → Prop where
  | notify : Permitted as ⟨1, .notifyBlockAdded 0⟩
  | template (id : UInt64) (address : Str) :
      Permitted as ⟨id, .getBlockTemplate address (lit "Perennia-Zero-Allocation")⟩
  | block (block : RpcBlock Body) (won : Won crates (proposals as) block)
      (found : FoundIn crates float miningAddress as block) : Permitted as (submitRequest block)

/-- What the pool works on came from the node, what it has for the node was found
by a submission, and nothing else goes there. -/
structure Provenance (as : List (Action Body)) (state : State Body) : Prop where
  jobs : JobsFrom crates (proposals as) state.relay.server.jobs
  kept : ∀ block ∈ kept state.relay,
    Won crates (proposals as) block ∧ FoundIn crates float miningAddress as block
  requests : ∀ request ∈ state.requests, Permitted crates float miningAddress as request

theorem proposedBy_subset (state : State Body) (a : Action Body) :
    proposedBy state a ⊆ proposals [a] := by
  intro block hb
  cases a with
  | message response redisOk =>
    cases response with
    | getBlockTemplate proposed =>
      cases proposed with
      | none => cases hb
      | some proposed =>
        rw [proposedBy, List.mem_ite_nil_right] at hb
        simpa [proposals] using hb.2
    | _ => cases hb
  | _ => cases hb

/-- The pool has seen no template but the node's. -/
theorem templates_run (as : List (Action Body)) :
    (run (step crates float miningAddress) (boot Body) as).templates ⊆ proposals as := by
  induction as using List.reverseRecOn with
  | nil => simp [boot]
  | append_singleton pre a ih =>
    rw [run_concat, (outcome_step crates float miningAddress _ a).templates, proposals,
      List.filterMap_append]
    exact List.append_subset.mpr ⟨List.Subset.trans ih (List.subset_append_left _ _),
      List.Subset.trans (proposedBy_subset _ a) (List.subset_append_right _ _)⟩

variable {crates float miningAddress} in
theorem FoundIn.mono {as bs : List (Action Body)} {block : RpcBlock Body}
    (h : FoundIn crates float miningAddress as block) (hp : as <+: bs) :
    FoundIn crates float miningAddress bs block := by
  obtain ⟨before, index, params, event, hbefore, hfound⟩ := h
  exact ⟨before, index, params, event, hbefore.trans hp, hfound⟩

/-- Only a submission finds a block. -/
theorem foundIn_last {pre : List (Action Body)} {a : Action Body}
    {action : BlockRelay.Action Body} {found : RpcBlock Body × Value Float}
    (hact : relayAct (run (step crates float miningAddress) (boot Body) pre) a = some action)
    (hfound : foundBy crates float (run (step crates float miningAddress) (boot Body) pre).relay
      action = some found) :
    FoundIn crates float miningAddress (pre ++ [a]) found.1 := by
  cases action with
  | server action =>
    cases action with
    | submit index params =>
      have ha : a = .relay (.server (.submit index params)) := by
        cases a with
        | relay action =>
          rw [relayAct] at hact
          · rw [Option.some.inj hact]
          · rintro block rfl
            cases hact
        | message response redisOk =>
          cases response with
          | getBlockTemplate block =>
            cases block with
            | none => cases hact
            | some block =>
              simp only [relayAct] at hact
              split at hact <;> cases hact
          | _ => cases hact
        | _ => cases hact
      subst ha
      exact ⟨pre, index, params, found.2, List.prefix_rfl, hfound⟩
    | _ => cases hfound
  | _ => cases hfound

/-- Every block on its way to the node was found by a submission. -/
theorem kept_found (as : List (Action Body)) :
    ∀ block ∈ kept (run (step crates float miningAddress) (boot Body) as).relay,
      FoundIn crates float miningAddress as block := by
  induction as using List.reverseRecOn with
  | nil => simp [boot, BlockRelay.boot, BlockRelay.kept, Server.boot, Channel.empty]
  | append_singleton pre a ih =>
    have hold : ∀ block ∈ kept (run (step crates float miningAddress) (boot Body) pre).relay,
        FoundIn crates float miningAddress (pre ++ [a]) block := fun block hb =>
      (ih block hb).mono (List.prefix_append _ _)
    intro block hb
    rw [run_concat, (outcome_step crates float miningAddress _ a).relay] at hb
    cases hact : relayAct (run (step crates float miningAddress) (boot Body) pre) a with
    | none =>
      rw [hact] at hb
      exact hold block hb
    | some action =>
      rw [hact] at hb
      obtain hb | ⟨found, hf, rfl⟩ := kept_of_step crates float _ action block hb
      · exact hold block hb
      · exact foundIn_last crates float miningAddress hact hf

theorem requests_found (as : List (Action Body)) :
    ∀ request ∈ (run (step crates float miningAddress) (boot Body) as).requests,
      request = ⟨1, .notifyBlockAdded 0⟩ ∨
        (∃ id address,
          request = ⟨id, .getBlockTemplate address (lit "Perennia-Zero-Allocation")⟩) ∨
        ∃ block, FoundIn crates float miningAddress as block ∧ request = submitRequest block := by
  induction as using List.reverseRecOn with
  | nil => simp [boot]
  | append_singleton pre a ih =>
    intro request hr
    rw [run_concat, (outcome_step crates float miningAddress _ a).requests] at hr
    obtain hr | hr := List.mem_append.mp hr
    · refine (ih request hr).imp_right (Or.imp_right ?_)
      rintro ⟨block, hfound, rfl⟩
      exact ⟨block, hfound.mono (List.prefix_append _ _), rfl⟩
    · refine (sentBy_cases miningAddress hr).imp_right (Or.imp_right ?_)
      rintro ⟨block, hb, rfl⟩
      exact ⟨block, (kept_found crates float miningAddress pre block hb).mono
        (List.prefix_append _ _), rfl⟩

/-- In every run the pool works on templates of its node alone, and submits only
blocks that a miner found there, changed in nothing but a nonce that meets the
network target. -/
theorem submitted_blocks_proposed (as : List (Action Body)) :
    Provenance crates float miningAddress as
      (run (step crates float miningAddress) (boot Body) as) := by
  have htraced := (traced_run crates float miningAddress as).last
  have hsub := templates_run crates float miningAddress as
  refine ⟨htraced.jobs.mono hsub, ?_, ?_⟩
  · intro block hb
    exact ⟨(htraced.kept block hb).mono hsub, kept_found crates float miningAddress as block hb⟩
  · intro request hr
    obtain rfl | ⟨id, address, rfl⟩ | ⟨block, hfound, rfl⟩ :=
      requests_found crates float miningAddress as request hr
    · exact .notify
    · exact .template id address
    · exact .block block ((htraced.submitted _ hr block false rfl).mono hsub) hfound

end Provenance

section Rewards

variable {Body : Type} (crates : Crates) (float : Float → Str) (miningAddress : Str)
  (pays : Body → Str)

/-- The address of the configuration, or one that was put into Redis for it. -/
def Chosen (state : State Body) (address : Str) : Prop :=
  address = miningAddress ∨ address ≠ [] ∧ address ∈ state.addresses

/-- The node proposes blocks that pay an address it was asked for. -/
def PaysAsAsked (state : State Body) : Action Body → Prop
  | .message (.getBlockTemplate (some block)) _ => ∃ request ∈ state.requests, ∃ extraData,
      request.payload = .getBlockTemplate (pays block.body) extraData
  | _ => True

/-- Every template asked for, and every block sent back, pays a chosen address. -/
structure RewardsChosen (state : State Body) : Prop where
  asked : ∀ request ∈ state.requests, ∀ address extraData,
    request.payload = .getBlockTemplate address extraData → Chosen miningAddress state address
  submitted : ∀ request ∈ state.requests, ∀ block allow,
    request.payload = .submitBlock block allow → Chosen miningAddress state (pays block.body)

structure Paying (state : State Body) : Prop where
  current : ∀ address ∈ state.redisAddress, address ∈ state.addresses
  asked : ∀ request ∈ state.requests, ∀ address extraData,
    request.payload = .getBlockTemplate address extraData → Chosen miningAddress state address
  proposed : ∀ block ∈ state.templates, Chosen miningAddress state (pays block.body)

variable {miningAddress} in
theorem Chosen.mono {state after : State Body} {address : Str}
    (h : Chosen miningAddress state address) (hsub : state.addresses ⊆ after.addresses) :
    Chosen miningAddress after address :=
  h.imp_right (fun h => ⟨h.1, hsub h.2⟩)

theorem chosen_payAddress {state : State Body}
    (h : ∀ address ∈ state.redisAddress, address ∈ state.addresses) (redisOk : Bool) :
    Chosen miningAddress state (payAddress miningAddress state redisOk) := by
  cases redisOk with
  | false => exact .inl rfl
  | true =>
    cases haddr : state.redisAddress with
    | none => exact .inl (by simp [payAddress, haddr])
    | some addr =>
      by_cases hempty : addr = []
      · exact .inl (by simp [payAddress, haddr, hempty])
      · have hpay : payAddress miningAddress state true = addr := by
          simp [payAddress, haddr, hempty]
        rw [hpay]
        exact .inr ⟨hempty, h addr haddr⟩

/-- A template that a step asks for pays the address of that moment. -/
theorem sentBy_template {state : State Body} {a : Action Body} {request : KaspadRequest Body}
    (hr : request ∈ sentBy miningAddress state a) {address extraData : Str}
    (hp : request.payload = .getBlockTemplate address extraData) :
    ∃ redisOk, address = payAddress miningAddress state redisOk := by
  rw [sentBy, List.mem_ite_nil_right] at hr
  obtain ⟨-, hr⟩ := hr
  cases a with
  | relay action =>
    cases action with
    | deliver =>
      obtain ⟨b, hb, rfl⟩ := List.mem_map.mp hr
      cases hp
    | _ => cases hr
  | notify =>
    rw [requestsOf, List.mem_ite_nil_right] at hr
    rw [List.mem_singleton.mp hr.2] at hp
    cases hp
  | ask redisOk =>
    rw [requestsOf, List.mem_ite_nil_right] at hr
    rw [List.mem_singleton.mp hr.2] at hp
    cases hp
    exact ⟨redisOk, rfl⟩
  | message response redisOk =>
    cases response with
    | blockAdded =>
      rw [requestsOf, List.mem_ite_nil_right] at hr
      rw [List.mem_singleton.mp hr.2] at hp
      cases hp
      exact ⟨redisOk, rfl⟩
    | _ => cases hr
  | _ => cases hr

theorem paying_step {state : State Body} (h : Paying miningAddress pays state) (a : Action Body)
    (ha : PaysAsAsked pays state a) :
    Paying miningAddress pays (step crates float miningAddress state a) := by
  have hout := outcome_step crates float miningAddress state a
  have hsub : state.addresses ⊆ (step crates float miningAddress state a).addresses := by
    rw [hout.addresses]
    exact List.subset_append_left _ _
  refine ⟨?_, ?_, ?_⟩
  · rw [hout.redisAddress, hout.addresses]
    intro address haddress
    cases a with
    | setAddress written =>
      exact List.mem_append_right _ (Option.mem_toList.mpr haddress)
    | _ => exact List.mem_append_left _ (h.current address haddress)
  · intro request hr address extraData hp
    rw [hout.requests] at hr
    obtain hr | hr := List.mem_append.mp hr
    · exact (h.asked request hr address extraData hp).mono hsub
    · obtain ⟨redisOk, rfl⟩ := sentBy_template miningAddress hr hp
      exact (chosen_payAddress miningAddress h.current redisOk).mono hsub
  · intro block hb
    rw [hout.templates] at hb
    obtain hb | hb := List.mem_append.mp hb
    · exact (h.proposed block hb).mono hsub
    · cases a with
      | message response redisOk =>
        cases response with
        | getBlockTemplate proposed =>
          cases proposed with
          | none => cases hb
          | some proposed =>
            rw [proposedBy, List.mem_ite_nil_right] at hb
            rw [List.mem_singleton.mp hb.2]
            obtain ⟨request, hr, extraData, hp⟩ := ha
            exact (h.asked request hr _ extraData hp).mono hsub
        | _ => cases hb
      | _ => cases hb

/-- With a node that pays as it is asked, no block of the pool ever pays an
address that nobody chose, whatever its miners send. -/
theorem rewards_chosen (as : List (Action Body))
    (hnode : Guarded (step crates float miningAddress) (PaysAsAsked pays) (boot Body) as) :
    Always (step crates float miningAddress) (RewardsChosen miningAddress pays) (boot Body) as := by
  have hpaying := hnode.always (I := Paying miningAddress pays)
    ⟨by simp [boot], by simp [boot], by simp [boot]⟩
    (fun _ a h ha => paying_step crates float miningAddress pays h a ha)
  have htraced := traced_run crates float miningAddress as
  intro pre hp
  refine ⟨(hpaying pre hp).asked, ?_⟩
  intro request hr block allow hpayload
  obtain ⟨header, proposed, nonce, hfrom, -, rfl⟩ :=
    (htraced pre hp).submitted request hr block allow hpayload
  exact (hpaying pre hp).proposed proposed hfrom.proposed

end Rewards

section Examples

/-- The node is asked for a template, proposes one and gets it back solved. -/
def solvedRun : List (Action Unit) :=
  [.setAddress (some (lit "kaspatest:qq0")), .notify, .ask true,
    .message (.getBlockTemplate (some template)) true, .relay (.server (.jobs (.advance 0))),
    .relay (.server (.connect 1 1)), .relay (.server (.submit 0 (shareParams (lit "7")))),
    .relay (.server .forwardBlock), .relay .deliver]

theorem solved_run_rewards_chosen :
    Always (step luckyCrates (fun _ => []) (lit "kaspatest:qq1"))
      (RewardsChosen (lit "kaspatest:qq1") (fun _ => lit "kaspatest:qq0")) (boot Unit) solvedRun := by
  apply rewards_chosen
  simp only [solvedRun, guarded_cons, guarded_nil, PaysAsAsked, and_true, true_and]
  exact ⟨_, List.mem_cons_of_mem _ List.mem_cons_self, _, rfl⟩

/-- The node gets one block in that run. -/
example : (run (step luckyCrates (fun _ => []) (lit "kaspatest:qq1")) (boot Unit)
    solvedRun).relay.handed.length = 1 := by decide +kernel

end Examples

end StratumPool.KaspadClient
