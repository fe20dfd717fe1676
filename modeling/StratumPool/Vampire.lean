import StratumPool.Nonce
import StratumPool.Wire

namespace StratumPool.Vampire

open Lib StratumPool.Text StratumPool.Json StratumPool.Kaspa StratumPool.Submit StratumPool.Wire
open StratumPool.Session (RpcRequest accept)
open StratumPool.Server (verdictOf)

section Requests

/-- A field of an object, `null` where it is missing; a field that comes twice is
an error. -/
def onlyField (key : Str) (fields : List (Str × Value Float)) : Option (Value Float) :=
  match fields.filter (fun f => f.1 == key) with
  | [] => some .null
  | [f] => some f.2
  | _ => none

def optionalText : Value Float → Option (Option Str)
  | .null => some none
  | .string s => some (some s)
  | _ => none

def optionalItems : Value Float → Option (Option (List (Value Float)))
  | .null => some none
  | .array items => some (some items)
  | _ => none

def optionalValue : Value Float → Option (Value Float)
  | .null => none
  | v => some v

def ofFields (id method params : Value Float) : Option RpcRequest := do
  let method ← optionalText method
  let params ← optionalItems params
  return ⟨optionalValue id, method, params⟩

/-- The derived `Deserialize` takes an object, or an array with the fields in
their order. -/
def deserialize : Value Float → Option RpcRequest
  | .object fields => do
      let id ← onlyField (lit "id") fields
      let method ← onlyField (lit "method") fields
      let params ← onlyField (lit "params") fields
      ofFields id method params
  | .array [id, method, params] => ofFields id method params
  | _ => none

/-- `serde_json::from_str::<RpcRequest>` on compact texts, which is what a worker
of the load tester sends. -/
def parseRequest (scan : Str → Option Float) (line : Str) : Option RpcRequest :=
  (readText scan line).bind deserialize

end Requests

section Worker

/-- How far the worker is: it waits for the answer to its subscription, for the
extranonce, for the answer to its authorization, or it is in its loop. -/
inductive Stage where
  | subscribing | injecting | authorizing | mining
  deriving DecidableEq

/-- The variables of one worker task; `running` ends with the task. -/
structure Worker where
  workerName : Str
  stage : Stage
  running : Bool
  currentJob : Str
  currentDiff : Float

def concurrentWorkers : Nat := 4500

/-- `format!("kaspa:q_vampire_wallet.vamp_rig_{:04}", i)` -/
def workerName (i : Fin concurrentWorkers) : Str :=
  lit "kaspa:q_vampire_wallet.vamp_rig_" ++ (Nat.toDigits 10 i).leftpad 4 '0'

def request (id : Nat) (method : Str) (params : List Str) : Value Float :=
  .object [(lit "id", .number (.posInt id)), (lit "method", .string method),
    (lit "params", .array (params.map .string))]

def subReq : Value Float := request 1 (lit "mining.subscribe") [lit "VampireMiner/1.0"]

def authReq (workerName : Str) : Value Float :=
  request 2 (lit "mining.authorize") [workerName, lit "password"]

/-- The nonce goes out as `format!("{:016x}", ..)`. -/
def submitReq (submission : Submission) : Value Float :=
  request 4 (lit "mining.submit")
    [submission.worker, submission.jobId, HexText.padded 16 submission.nonce.toNat]

/-- `to_string() + "\n"` -/
def toLine (req : Value Float) : Str := render (fun _ => []) req ++ ['\n']

/-- `as_f64`, where the integers of a text are 64 bits wide. -/
def asFloat : Value Float → Option Float
  | .number (.posInt n) => some (UInt64.ofNat n).toFloat
  | .number (.negInt n) => some (Int64.ofInt n).toFloat
  | .number (.float x) => some x
  | _ => none

def deploy (i : Fin concurrentWorkers) : Worker :=
  ⟨workerName i, .subscribing, true, lit "vampire_dummy_job", 256.0⟩

namespace Worker

/-- `params[0]` of a message that has `params`; the index panics where they are
empty, and that is the end of the task. -/
def onParam (worker : Worker) (msg : Value Float) (f : Value Float → Worker) : Worker :=
  match msg.field (lit "params") with
  | .array [] => { worker with running := false }
  | .array (param :: _) => f param
  | _ => worker

def receive (scan : Str → Option Float) (worker : Worker) (line : Str) : Worker :=
  match readText scan line with
  | none => worker
  | some msg =>
      if (msg.field (lit "method")).asStr = some (lit "mining.notify") then
        worker.onParam msg fun param =>
          match param.asStr with
          | some jobId => { worker with currentJob := jobId }
          | none => worker
      else if (msg.field (lit "method")).asStr = some (lit "mining.set_difficulty") then
        worker.onParam msg fun param =>
          match asFloat param with
          | some newDiff => { worker with currentDiff := newDiff }
          | none => worker
      else worker

/-- What a line does, or the end of the stream, and what the worker writes then.
The lines of the handshake are not looked at. -/
def next (scan : Str → Option Float) (worker : Worker) (line : Option Str) :
    Worker × List (Value Float) :=
  match worker.stage with
  | .subscribing => ({ worker with stage := .injecting }, [])
  | .injecting => ({ worker with stage := .authorizing }, [authReq worker.workerName])
  | .authorizing => ({ worker with stage := .mining }, [])
  | .mining =>
      match line with
      | none => ({ worker with running := false }, [])
      | some line => (worker.receive scan line, [])

end Worker

end Worker

section Steps

/-- A worker, its connection, and the texts on their way between them. `fired`
lists what the worker submitted, `judged` what the server judged of it. -/
structure State (Body : Type) where
  session : Session.State Body
  vampire : Worker
  toServer : Str
  toClient : Str
  fired : List Submission
  judged : List Submission

/-- The worker has connected and asked to subscribe. -/
def connect {Body : Type} (server : Server.State Body) (connId currentDiff : UInt64)
    (i : Fin concurrentWorkers) : State Body :=
  ⟨accept server connId currentDiff, deploy i, toLine subReq, [], [], []⟩

/-- What may happen next: the server takes a line, or loses its client, or does
something of its own; the worker takes a line, submits, or is gone. Where the
worker submits, `torn` is how much it had of a line that was not yet there to its
end, since `read_line` gives that up. -/
inductive Action (Body : Type) where
  | deliver
  | reset
  | server (action : Session.Action Body)
  | hear
  | fire (nonce : UInt64) (torn : Nat)
  | hangUp

/-- The first line of a text, and the text behind it. -/
def nextLine (text : Str) : Option (Str × Str) :=
  if '\n' ∈ text then
    some (text.takeWhile (· != '\n'), (text.dropWhile (· != '\n')).tail)
  else none

/-- `LinesCodec::new_with_max_length(2048)` refuses a longer line. -/
def decode (line : Str) : Option Str := if len line ≤ 2048 then some line else none

/-- The text without the piece of its first line that is lost. -/
def tear (torn : Nat) (text : Str) : Str :=
  text.drop (min torn (text.takeWhile (· != '\n')).length)

variable {Body : Type} (crates : Crates) (float : Float → Str) (scan : Str → Option Float)

/-- The submission of a line that the server judges. -/
def judgedIn (session : Session.State Body) (a : Session.Action Body) : Option Submission :=
  match Session.requestOf (parseRequest scan) session a with
  | none => none
  | some req =>
      if session.phase = .serving ∧ req.isSubmit then
        (verdictOf crates float session.server (.submit 0 req.params)).map (·.2.1)
      else none

def act (state : State Body) (a : Session.Action Body) : State Body :=
  let session := Session.step crates float (parseRequest scan) state.session a
  { state with
    session
    toClient := state.toClient ++
      socketText float (session.written.drop state.session.written.length)
    judged := state.judged ++ (judgedIn crates float scan state.session a).toList }

def deliver (state : State Body) : State Body :=
  if state.session.phase.reads then
    match nextLine state.toServer with
    | none => state
    | some (line, rest) =>
        { act crates float scan state (.read (decode line)) with toServer := rest }
  else state

def hearLine (state : State Body) (line : Option Str) : State Body :=
  let (vampire, sent) := state.vampire.next scan line
  { state with vampire, toServer := state.toServer ++ sent.flatMap toLine }

def hear (state : State Body) : State Body :=
  if state.vampire.running then
    match nextLine state.toClient with
    | some (line, rest) => hearLine scan { state with toClient := rest } (some line)
    | none =>
        if state.session.phase = .closed ∧ state.toClient = [] then hearLine scan state none
        else state
  else state

def fire (state : State Body) (nonce : UInt64) (torn : Nat) : State Body :=
  if state.vampire.running ∧ state.vampire.stage = .mining then
    let submission : Submission := ⟨state.vampire.workerName, state.vampire.currentJob, nonce⟩
    { state with
      toServer := state.toServer ++ toLine (submitReq submission)
      toClient := tear torn state.toClient
      fired := state.fired ++ [submission] }
  else state

def step (state : State Body) : Action Body → State Body
  | .deliver => deliver crates float scan state
  | .reset => act crates float scan state (.read none)
  | .server (.read _) => state
  | .server action => act crates float scan state action
  | .hear => hear scan state
  | .fire nonce torn => fire state nonce torn
  | .hangUp => { state with vampire := { state.vampire with running := false } }

end Steps

section Lines

/-- A character that is printed as it is and that no cleaning takes away. -/
def isPlain (c : Char) : Bool := 33 ≤ c.toNat && c.toNat ≤ 126 && c != '"' && c != '\\'

def Plain (s : Str) : Prop := ∀ c ∈ s, isPlain c = true

instance (s : Str) : Decidable (Plain s) := List.decidableBAll (fun c : Char => isPlain c = true) s

theorem isPlain_iff {c : Char} :
    isPlain c = true ↔ (33 ≤ c.toNat ∧ c.toNat ≤ 126) ∧ c ≠ '"' ∧ c ≠ '\\' := by
  simp [isPlain, and_assoc]

theorem Plain.append {s t : Str} (hs : Plain s) (ht : Plain t) : Plain (s ++ t) :=
  List.forall_mem_append.mpr ⟨hs, ht⟩

theorem isPlain_lower {c : Char} (h : HexText.isLower c = true) : isPlain c = true := by
  simp only [HexText.isLower, Bool.or_eq_true, Bool.and_eq_true, decide_eq_true_eq, Char.le_def,
    UInt32.le_iff_toNat_le] at h
  change (48 ≤ c.toNat ∧ c.toNat ≤ 57) ∨ (97 ≤ c.toNat ∧ c.toNat ≤ 102) at h
  refine isPlain_iff.mpr ⟨by omega, ?_, ?_⟩
  · rintro rfl
    revert h
    decide
  · rintro rfl
    revert h
    decide

theorem plain_padded (width n : Nat) : Plain (HexText.padded width n) :=
  fun c hc => isPlain_lower (HexText.padded_lower width n c hc)

theorem escape_plain {c : Char} (h : isPlain c = true) : escapeChar c = [c] := by
  obtain ⟨⟨hlow, -⟩, hquote, hslash⟩ := isPlain_iff.mp h
  have hne : ∀ {n : Nat}, n < 33 → c.toNat ≠ n := by
    intro n hn
    omega
  rw [escapeChar, if_neg hquote, if_neg hslash, if_neg (hne (by decide)), if_neg (hne (by decide)),
    if_neg (hne (by decide)), if_neg (hne (by decide)), if_neg (hne (by decide)), if_neg (by omega)]

theorem quote_plain {s : Str} (h : Plain s) : quote s = ['"'] ++ s ++ ['"'] := by
  have hsame : s.flatMap escapeChar = s.flatMap fun c => [c] := by
    simp only [List.flatMap_def]
    rw [List.map_congr_left fun c hc => escape_plain (h c hc)]
  rw [quote, hsame, List.flatMap_singleton']

theorem len_append (s t : Str) : len (s ++ t) = len s + len t := by
  simp [len]

theorem len_plain {s : Str} (h : Plain s) : len s = s.length := by
  induction s with
  | nil => rfl
  | cons c s ih =>
    have hc : c.utf8Size = 1 := by
      obtain ⟨⟨-, hhigh⟩, -⟩ := isPlain_iff.mp (h c List.mem_cons_self)
      rw [Char.utf8Size_eq_one_iff, UInt32.le_iff_toNat_le]
      change c.toNat ≤ 127
      omega
    have hs := ih fun d hd => h d (List.mem_cons_of_mem c hd)
    simp only [len, List.map_cons, List.sum_cons, List.length_cons] at hs ⊢
    omega

theorem not_wrapping_plain {c : Char} (h : isPlain c = true) : Nonce.isWrapping c = false := by
  obtain ⟨⟨hlow, hhigh⟩, hquote, -⟩ := isPlain_iff.mp h
  have hnul : c ≠ Char.ofNat 0 := by
    rintro rfl
    exact absurd hlow (by decide)
  have hspace : isWhitespace c = false := by
    simp only [isWhitespace, Bool.or_eq_false_iff, Bool.and_eq_false_iff, decide_eq_false_iff_not,
      beq_eq_false_iff_ne]
    omega
  simp [Nonce.isWrapping, hquote, hnul, hspace]

theorem cleanParam_plain (float : Float → Str) {s : Str} (h : Plain s) :
    cleanParam float (.string s) = s := by
  refine Nonce.cleanParam_wraps float ⟨[], [], ?_, by simp, by simp⟩ ?_
  · rw [List.nil_append, List.append_nil]
  · exact fun c hc => not_wrapping_plain (h c hc)

/-- Sixteen digits are a whole nonce, whatever the extranonce. -/
theorem decodeNonce_padded (extranonce1 : Str) (nonce : UInt64) :
    decodeNonce extranonce1 (HexText.padded 16 nonce.toNat) = nonce := by
  have hhex := HexText.isHex_padded 16 nonce.toNat
  have hlength : (HexText.padded 16 nonce.toNat).length = 16 :=
    HexText.length_padded (by decide) nonce.toNat_lt
  have hne : HexText.padded 16 nonce.toNat ≠ [] := List.ne_nil_of_length_eq_add_one hlength
  rw [decodeNonce, Nonce.trimStart0x_hex hhex, if_neg (by rw [Nonce.len_hex hhex]; omega),
    Nonce.parsed_of_hex hne hlength.le hhex, HexText.value_padded, Option.getD_some,
    UInt64.ofNat_toNat]

theorem plain_workerName (i : Fin concurrentWorkers) : Plain (workerName i) := by
  refine Plain.append (by decide) ?_
  intro c hc
  rw [List.leftpad] at hc
  obtain hc | hc := List.mem_append.mp hc
  · rw [List.eq_of_mem_replicate hc]
    rfl
  · have hdigit := isDigit_toDigits i c hc
    simp only [Char.isDigit, Bool.and_eq_true, decide_eq_true_eq, ge_iff_le,
      UInt32.le_iff_toNat_le] at hdigit
    apply isPlain_lower
    simp only [HexText.isLower, Bool.or_eq_true, Bool.and_eq_true, decide_eq_true_eq, Char.le_def,
      UInt32.le_iff_toNat_le]
    exact .inl hdigit

theorem length_workerName (i : Fin concurrentWorkers) : (workerName i).length = 36 := by
  have hlt : (i : Nat) < 10 ^ 4 := i.isLt.trans (by decide)
  have hle : (Nat.toDigits 10 i).length ≤ 4 := Nat.toDigits_length 10 i 4 (by decide) hlt
  have hprefix : (lit "kaspa:q_vampire_wallet.vamp_rig_").length = 32 := by decide
  rw [workerName, List.length_append, hprefix, List.length_leftpad]
  omega

end Lines

section Requests

variable {scan : Str → Option Float}

/-- A text of a request: plain, and not long. -/
def Short (s : Str) : Prop := Plain s ∧ s.length ≤ 40

instance (s : Str) : Decidable (Short s) := instDecidableAnd

/-- The requests of a worker, all of them short enough for the codec. -/
def IsRequest (req : Value Float) : Prop :=
  ∃ id method params, req = request id method params ∧ len (decimal id) = 1 ∧ Short method ∧
    params.length ≤ 3 ∧ ∀ param ∈ params, Short param

theorem isRequest_sub : IsRequest subReq :=
  ⟨1, _, _, rfl, by decide, by decide, by decide, by decide⟩

theorem isRequest_auth {name : Str} (h : Short name) : IsRequest (authReq name) := by
  refine ⟨2, _, _, rfl, by decide, by decide, Nat.le_succ 2, ?_⟩
  simp only [List.forall_mem_cons]
  exact ⟨h, by decide, by simp⟩

theorem isRequest_submit {submission : Submission} (hworker : Short submission.worker)
    (hjob : Short submission.jobId) : IsRequest (submitReq submission) := by
  have hnonce : (HexText.padded 16 submission.nonce.toNat).length = 16 :=
    HexText.length_padded (by decide) submission.nonce.toNat_lt
  refine ⟨4, _, _, rfl, by decide, by decide, le_rfl, ?_⟩
  simp only [List.forall_mem_cons]
  exact ⟨hworker, hjob, ⟨plain_padded 16 _, by omega⟩, by simp⟩

theorem readable_request (id : Nat) (method : Str) (params : List Str) :
    Readable (fun _ => []) scan (request id method params) := by
  have hitems : ReadableItems (fun _ => []) scan (params.map .string) := by
    induction params with
    | nil => trivial
    | cons param params ih => exact ⟨trivial, ih⟩
  simp only [request, Readable, ReadableFields, Number.Readable]
  exact ⟨trivial, trivial, hitems, trivial⟩

theorem IsRequest.readable {req : Value Float} (h : IsRequest req) :
    Readable (fun _ => []) scan req := by
  obtain ⟨id, method, params, rfl, -⟩ := h
  exact readable_request id method params

theorem len_quote {s : Str} (h : Short s) : len (quote s) ≤ 42 := by
  obtain ⟨hplain, hlength⟩ := h
  rw [quote_plain hplain, len_append, len_append, len_plain hplain]
  change 1 + s.length + 1 ≤ 42
  omega

theorem len_items {params : List Str} (h : ∀ param ∈ params, Short param) :
    len (renderItems (R := Float) (fun _ => []) (params.map .string)) ≤ 43 * params.length := by
  induction params with
  | nil => exact le_rfl
  | cons param params ih =>
    obtain ⟨hparam, hparams⟩ := List.forall_mem_cons.mp h
    have hq := len_quote hparam
    cases params with
    | nil =>
      simp only [List.map_cons, List.map_nil, renderItems, render, List.length_cons]
      omega
    | cons next params =>
      have hrest := ih hparams
      simp only [List.map_cons, renderItems, render, len_append, List.length_cons] at hrest ⊢
      change len (quote param) + 1 + _ ≤ _
      omega

/-- The codec takes every line of a worker. -/
theorem decode_request {req : Value Float} (h : IsRequest req) :
    decode (render (fun _ => []) req) = some (render (fun _ => []) req) := by
  obtain ⟨id, method, params, rfl, hid, hmethod, hthree, hparams⟩ := h
  have hitems := len_items hparams
  have hquote := len_quote hmethod
  have hnames : len (quote (lit "id")) = 4 ∧ len (quote (lit "method")) = 8 ∧
      len (quote (lit "params")) = 8 := by decide
  have hsigns : len ['\x7b'] = 1 ∧ len ['\x7d'] = 1 ∧ len ['['] = 1 ∧ len [']'] = 1 ∧
      len [':'] = 1 ∧ len [','] = 1 := by decide
  rw [decode, if_pos]
  simp only [request, render, renderFields, len_append, hid, hnames, hsigns]
  omega

theorem strip_braces {p : Char → Bool} (hopen : p '\x7b' = false) (hclose : p '\x7d' = false)
    (s : Str) : (('\x7b' :: (s ++ ['\x7d'])).dropWhile p).rdropWhile p =
      '\x7b' :: (s ++ ['\x7d']) := by
  rw [List.dropWhile_cons_of_neg (by simp [hopen]), ← List.cons_append,
    List.rdropWhile_concat_neg p _ _ (by simp [hclose])]

theorem trimmed_braces (s : Str) :
    Session.trimmed ('\x7b' :: (s ++ ['\x7d'])) = '\x7b' :: (s ++ ['\x7d']) := by
  simp only [Session.trimmed]
  rw [strip_braces (by decide) (by decide), trim, strip_braces (by decide) (by decide)]

theorem render_request (id : Nat) (method : Str) (params : List Str) :
    ∃ s, render (fun _ => []) (request id method params) = '\x7b' :: (s ++ ['\x7d']) := by
  rw [request, render]
  exact ⟨_, rfl⟩

def rpcRequest (id : Nat) (method : Str) (params : List Str) : RpcRequest :=
  ⟨some (.number (.posInt id)), some method, some (params.map .string)⟩

theorem params_rpcRequest (id : Nat) (method : Str) (params : List Str) :
    (rpcRequest id method params).params = some (params.map .string) := rfl

theorem isSubmit_rpcRequest (id : Nat) (params : List Str) :
    (rpcRequest id (lit "mining.submit") params).isSubmit = true :=
  beq_self_eq_true (lit "mining.submit")

/-- The server reads of a line what the worker wrote. -/
theorem readRequest_line (id : Nat) (method : Str) (params : List Str) :
    Session.readRequest (parseRequest scan) (render (fun _ => []) (request id method params)) =
      some (rpcRequest id method params) := by
  obtain ⟨s, hs⟩ := render_request id method params
  have htrim : Session.trimmed (render (fun _ => []) (request id method params)) =
      render (fun _ => []) (request id method params) := by
    rw [hs, trimmed_braces]
  rw [Session.readRequest, htrim, if_neg (by rw [hs]; simp), parseRequest,
    readText_render (readable_request id method params)]
  rfl

theorem readSubmission_submit (float : Float → Str) (extranonce1 : Str) {submission : Submission}
    (hworker : Plain submission.worker) (hjob : Plain submission.jobId) :
    readSubmission float extranonce1 (some ([submission.worker, submission.jobId,
      HexText.padded 16 submission.nonce.toNat].map .string)) = some submission := by
  simp only [List.map_cons, List.map_nil, readSubmission]
  rw [cleanParam_plain float hworker, cleanParam_plain float hjob,
    cleanParam_plain float (plain_padded 16 _), decodeNonce_padded]

end Requests

section Sockets

theorem nextLine_cons {line : Str} (h : '\n' ∉ line) (rest : Str) :
    nextLine (line ++ '\n' :: rest) = some (line, rest) := by
  have hall : ∀ c ∈ line, (c != '\n') = true := by
    intro c hc
    rw [bne_iff_ne]
    rintro rfl
    exact h hc
  rw [nextLine, if_pos (by simp), List.takeWhile_append_of_pos hall,
    List.dropWhile_append_of_pos hall]
  simp

theorem nextLine_nil : nextLine [] = none := rfl

theorem nextLine_requests {req : Value Float} (h : IsRequest req) (reqs : List (Value Float)) :
    nextLine ((req :: reqs).flatMap toLine) =
      some (render (fun _ => []) req, reqs.flatMap toLine) := by
  have hread : Readable (fun _ => []) (fun _ => none) req := h.readable
  have hline : '\n' ∉ render (fun _ => []) req := newline_not_mem hread
  rw [List.flatMap_cons, toLine, List.append_assoc, List.singleton_append, nextLine_cons hline]

theorem tear_zero (text : Str) : tear 0 text = text := by
  rw [tear, Nat.zero_min, List.drop_zero]

end Sockets

end StratumPool.Vampire
