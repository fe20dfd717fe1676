import StratumPool.Server

namespace StratumPool.OneWork

open Lib StratumPool.Text StratumPool.Json StratumPool.Kaspa StratumPool.DiffEngine
  StratumPool.Jobs StratumPool.Submit StratumPool.Server

section Laws

/-- What `State::new` keeps of a header. -/
structure PowState where
  prePowHash : Hash
  timestamp : UInt64
  bits : UInt32

def powState (crates : Crates) (header : Header) : PowState :=
  ⟨crates.hashOverrideNonceTime header 0 0, header.timestamp, header.bits⟩

/-- What the node's crates say of their functions: a header is hashed by its
fields and not by the hash it caches, the overriding hash replaces nonce and
time, and a proof of work is checked through its `State` alone. -/
structure Lawful (crates : Crates) : Prop where
  headerHash_eq : ∀ header,
    crates.headerHash header = crates.hashOverrideNonceTime header header.nonce header.timestamp
  uncached : ∀ (header : Header) (hash : Hash) (ownNonce nonce timestamp : UInt64),
    crates.hashOverrideNonceTime { header with hash, nonce := ownNonce } nonce timestamp =
      crates.hashOverrideNonceTime header nonce timestamp
  checkPow_congr : ∀ header header' nonce, powState crates header = powState crates header' →
    crates.checkPow header nonce = crates.checkPow header' nonce

variable {crates : Crates}

theorem Lawful.powState_congr (h : Lawful crates) (header : Header) (hash : Hash) (nonce : UInt64) :
    powState crates { header with hash, nonce } = powState crates header := by
  rw [powState, h.uncached]
  rfl

theorem Lawful.headerHash_congr (h : Lawful crates) (header : Header) (hash : Hash)
    (nonce : UInt64) :
    crates.headerHash { header with hash, nonce } = crates.headerHash { header with nonce } := by
  have hnonce : crates.hashOverrideNonceTime { header with nonce } nonce header.timestamp =
      crates.hashOverrideNonceTime header nonce header.timestamp :=
    h.uncached header header.hash nonce nonce header.timestamp
  rw [h.headerHash_eq, h.headerHash_eq, h.uncached]
  exact hnonce.symm

end Laws

section Announced

theorem leByte_eq (n : UInt64) {i : Nat} (hi : i < 8) :
    (n >>> UInt64.ofNat (8 * i)).toUInt8 = UInt8.ofNat (n.toNat / 256 ^ i) := by
  have hshift : (UInt64.ofNat (8 * i)).toNat % 64 = 8 * i := by
    rw [UInt64.toNat_ofNat']
    omega
  apply UInt8.toNat_inj.mp
  rw [UInt64.toNat_toUInt8, UInt64.toNat_shiftRight, hshift, Nat.shiftRight_eq_div_pow, pow_mul,
    UInt8.toNat_ofNat']
  rfl

/-- The eight bytes, lowest first, are the number. -/
theorem leValue_toLeBytes (n : UInt64) : HexText.leValue (toLeBytes n) = n.toNat := by
  have hbytes : toLeBytes n = (List.range 8).map (fun i => UInt8.ofNat (n.toNat / 256 ^ i)) := by
    apply List.map_congr_left
    intro i hi
    exact leByte_eq n (List.mem_range.mp hi)
  rw [hbytes, HexText.leValue_low]
  exact Nat.mod_eq_of_lt n.toNat_lt

theorem length_toLeBytes (n : UInt64) : (toLeBytes n).length = 8 := by
  simp [toLeBytes]

/-- A job string that says what `state` needs: the hash in its first 64 digits
and the time in its last 16. -/
structure Announces (param : Str) (state : PowState) : Prop where
  length : param.length = 80
  lower : ∀ c ∈ param, HexText.isLower c = true
  hash : HexText.bytes (param.take 64) = some state.prePowHash.toList
  time : (HexText.bytes (param.drop 64)).map HexText.leValue = some state.timestamp.toNat

theorem hexBytes_lower (bs : List UInt8) : ∀ c ∈ hexBytes bs, HexText.isLower c = true := by
  intro c hc
  obtain ⟨b, _, hb⟩ := List.mem_flatMap.mp hc
  exact HexText.padded_lower 2 b.toNat c hb

theorem announces_largeJobParam (crates : Crates) (header : Header) :
    Announces (largeJobParam crates header header.timestamp) (powState crates header) := by
  have hlen : (hexBytes (crates.hashOverrideNonceTime header 0 0).toList).length = 64 := by
    rw [hexBytes, HexText.length_flatMap, Vector.length_toList]
  have htime : (hexBytes (toLeBytes header.timestamp)).length = 16 := by
    rw [hexBytes, HexText.length_flatMap, length_toLeBytes]
  constructor
  · rw [largeJobParam, List.length_append, hlen, htime]
  · intro c hc
    obtain hc | hc := List.mem_append.mp hc
    · exact hexBytes_lower _ c hc
    · exact hexBytes_lower _ c hc
  · rw [largeJobParam, List.take_left' hlen, hexBytes, HexText.bytes_flatMap]
    rfl
  · rw [largeJobParam, List.drop_left' hlen, hexBytes, HexText.bytes_flatMap, Option.map_some,
      leValue_toLeBytes]
    rfl

end Announced

section Work

variable {Body : Type} {crates : Crates} {float : Float → Str}

theorem consensusHeader_fields {rpcHeader : RpcBlockHeader} {header : Header}
    (h : consensusHeader crates rpcHeader = some header) :
    header.timestamp = rpcHeader.timestamp.toUInt64 := by
  simp only [consensusHeader, bind, Option.bind_eq_some_iff] at h
  obtain ⟨_, _, _, _, _, _, _, _, _, _, _, _, _, _, h⟩ := h
  cases h
  rfl

/-- A template with another nonce converts to the same header, but for the
nonce and the hash, which is computed anew. -/
theorem consensusHeader_nonce {rpcHeader : RpcBlockHeader} {header : Header}
    (h : consensusHeader crates rpcHeader = some header) (nonce : UInt64) :
    consensusHeader crates { rpcHeader with nonce } =
      some { header with
        nonce, hash := crates.headerHash { header with nonce, hash := zeroHash } } := by
  simp only [consensusHeader, bind, Option.bind_eq_some_iff] at h ⊢
  obtain ⟨root, hroot, accepted, haccepted, utxo, hutxo, pruning, hpruning, work, hwork, levels,
    hlevels, parents, hparents, h⟩ := h
  cases h
  exact ⟨root, hroot, accepted, haccepted, utxo, hutxo, pruning, hpruning, work, hwork, levels,
    hlevels, parents, hparents, rfl⟩

/-- A template that is accepted starts one call. -/
theorem newBlock_call {manager : JobManager Body} {block : RpcBlock Body} {call : Call Body}
    (h : (newBlock crates manager block).calls = manager.calls ++ [call]) :
    ∃ rpcHeader header, block.header = some rpcHeader ∧
      consensusHeader crates rpcHeader = some header ∧ call.entry = (header, block) ∧
      call.stage = .converted ∧
      call.job.payload = notifyPayload crates call.job.jobId header header.timestamp := by
  cases hb : block.header with
  | none => simp [newBlock, hb] at h
  | some rpcHeader =>
    cases hc : consensusHeader crates rpcHeader with
    | none => simp [newBlock, hb, hc] at h
    | some header =>
      simp only [newBlock, hb, hc, List.append_cancel_left_eq, List.cons.injEq, and_true] at h
      refine ⟨rpcHeader, header, rfl, hc, ?_, ?_, ?_⟩
      · rw [← h]
      · rw [← h]
      · rw [← h, consensusHeader_fields hc]

/-- The first write of a call enters its header and its block under its id. -/
theorem lookup_advance {manager : JobManager Body} {index : Nat} {call : Call Body}
    (h : manager.calls[index]? = some call) (hstage : call.stage = .converted) :
    (advance manager index).activeJobs.lookup call.job.jobId = some call.entry := by
  obtain ⟨job, entry, stage⟩ := call
  cases hstage
  simp [advance, h]

/-- A submission of `nonce` that names the job of `call` while that is active. -/
structure Names (float : Float → Str) (state : Server.State Body) (call : Call Body)
    (nonce : UInt64) (index : Nat) (params : Option (List (Value Float))) (conn : Connection)
    (submission : Submission) : Prop where
  connected : state.connections[index]? = some conn
  read : readSubmission float conn.extranonce1 params = some submission
  job : state.jobs.activeJobs.lookup submission.jobId = some call.entry
  carries : submission.nonce = nonce

/-- The places where the work of one job and one nonce appears: the `notify`, the
entry that is checked, the block that is queued and the record. `decoded` is what
the queued block's header says. -/
structure SameWork (crates : Crates) (float : Float → Str) (block : RpcBlock Body)
    (call : Call Body) (nonce : UInt64) (rpcHeader : RpcBlockHeader) (decoded : Header) : Prop where
  header : block.header = some rpcHeader
  announced : ∃ param,
    call.job.payload = render (fun _ => []) (.object
      [(lit "id", .null), (lit "method", .string (lit "mining.notify")),
        (lit "params", .array [.string call.job.jobId, .string param])] : Value Float) ++ ['\n'] ∧
    Announces param (powState crates { call.entry.1 with nonce })
  entered : ∀ manager : JobManager Body, ∀ index, manager.calls[index]? = some call →
    (advance manager index).activeJobs.lookup call.job.jobId = some call.entry
  decodes : consensusHeader crates { rpcHeader with nonce } = some decoded
  checked : crates.checkPow decoded nonce = crates.checkPow { call.entry.1 with nonce } nonce ∧
    ∀ minShareDiff,
      verifyShare crates decoded nonce minShareDiff = verifyShare crates call.entry.1 nonce minShareDiff
  verified : ∀ state index params conn submission,
    Names float state call nonce index params conn submission →
    (Server.step crates float state (.submit index params)).evaluated =
      state.evaluated ++ [powOf crates decoded nonce]
  queued : ∀ state index params conn submission,
    Names float state call nonce index params conn submission →
    (Server.step crates float state (.submit index params)).blockSubmits.sent =
      state.blockSubmits.sent ++
        if (crates.checkPow decoded nonce).1 ∧ state.blockSubmits.accepts then
          [{ block with header := some { rpcHeader with nonce } }]
        else []
  recorded : ∀ state index params conn submission,
    Names float state call nonce index params conn submission →
    ((Server.step crates float state (.submit index params)).blockEvents.map
        (fun event => event.field (lit "block_hash"))) =
      state.blockEvents.map (fun event => event.field (lit "block_hash")) ++
        if (crates.checkPow decoded nonce).1 then [.string (hexBytes decoded.hash.toList)] else []

variable {state : Server.State Body} {call : Call Body} {nonce : UInt64} {index : Nat}
  {params : Option (List (Value Float))} {conn : Connection} {submission : Submission}

theorem Names.evaluates (crates : Crates)
    (h : Names float state call nonce index params conn submission) :
    (Server.step crates float state (.submit index params)).evaluated =
      state.evaluated ++ [powOf crates call.entry.1 nonce] := by
  rw [evaluated_judged crates float h.connected h.read, h.job, h.carries]
  rfl

/-- A submission for an active job passes its block on if its hash meets the
network's target, and no block otherwise. -/
theorem Names.passes (crates : Crates)
    (h : Names float state call nonce index params conn submission) :
    if (crates.checkPow { call.entry.1 with nonce } nonce).1 then
      PassesBlock crates state (Server.step crates float state (.submit index params)) conn submission
        call.entry.1 call.entry.2
    else
      (Server.step crates float state (.submit index params)).blockSubmits = state.blockSubmits ∧
        (Server.step crates float state (.submit index params)).blockEvents = state.blockEvents := by
  obtain ⟨hconn, hread, hjob, rfl⟩ := h
  cases hwins : (crates.checkPow { call.entry.1 with nonce := submission.nonce }
      submission.nonce).1 with
  | true =>
    have hjudge : judge crates state.jobs.activeJobs conn.currentDiff submission =
        .networkBlock call.entry.1 call.entry.2 := by
      simp [judge, hjob, verifyShare, hwins]
    exact passes_block crates float hconn hread hjudge
  | false =>
    have hfound : foundBlock crates float state (.submit index params) = none := by
      rw [foundBlock, verdictOf_submit crates float hconn hread]
      simp only [judge, hjob, verifyShare, hwins, Bool.false_eq_true, if_false]
      split
      · rename_i heq
        split at heq <;> cases heq
      · rfl
    obtain ⟨-, hsubmits, hevents, -⟩ := submit_outcome crates float state index params
    rw [hfound] at hsubmits hevents
    exact ⟨hsubmits, hevents.trans (List.append_nil _)⟩

theorem Names.queues (crates : Crates)
    (h : Names float state call nonce index params conn submission) :
    (Server.step crates float state (.submit index params)).blockSubmits.sent =
      state.blockSubmits.sent ++
        if (crates.checkPow { call.entry.1 with nonce } nonce).1 ∧ state.blockSubmits.accepts then
          [withNonce call.entry.2 nonce]
        else [] := by
  have hpasses := h.passes crates
  cases hwins : (crates.checkPow { call.entry.1 with nonce } nonce).1 with
  | true =>
    rw [if_pos hwins] at hpasses
    simp [hpasses.queued, h.carries]
  | false =>
    simp only [hwins, Bool.false_eq_true, if_false] at hpasses
    simp [hpasses.1]

theorem Names.records (crates : Crates)
    (h : Names float state call nonce index params conn submission) :
    (Server.step crates float state (.submit index params)).blockEvents.map
        (fun event => event.field (lit "block_hash")) =
      state.blockEvents.map (fun event => event.field (lit "block_hash")) ++
        if (crates.checkPow { call.entry.1 with nonce } nonce).1 then
          [.string (hexBytes (crates.headerHash { call.entry.1 with nonce }).toList)]
        else [] := by
  have hpasses := h.passes crates
  cases hwins : (crates.checkPow { call.entry.1 with nonce } nonce).1 with
  | true =>
    rw [if_pos hwins] at hpasses
    have hevent : (blockEvent crates call.entry.1 submission conn.currentDiff).field
        (lit "block_hash") =
        .string (hexBytes (crates.headerHash { call.entry.1 with nonce }).toList) := by
      rw [← h.carries]
      rfl
    simp [hpasses.recorded, hevent]
  | false =>
    simp only [hwins, Bool.false_eq_true, if_false] at hpasses
    simp [hpasses.2]

/-- Whatever template is accepted and whatever nonce wins, the miners are told,
the pool checks, the node gets and the oracle records one and the same work. -/
theorem same_work (hl : Lawful crates) {manager : JobManager Body} {block : RpcBlock Body}
    {call : Call Body} (h : (newBlock crates manager block).calls = manager.calls ++ [call])
    (nonce : UInt64) :
    ∃ rpcHeader decoded, SameWork crates float block call nonce rpcHeader decoded := by
  obtain ⟨rpcHeader, header, hheader, hconv, hentry, hstage, hpayload⟩ := newBlock_call h
  have hhash := hl.headerHash_congr header zeroHash nonce
  have hpow : ∀ hash, crates.checkPow { header with nonce, hash } nonce =
      crates.checkPow { header with nonce } nonce := by
    intro hash
    apply hl.checkPow_congr
    rw [hl.powState_congr header hash nonce]
    exact (hl.powState_congr header header.hash nonce).symm
  have hchecked := hpow (crates.headerHash { header with nonce, hash := zeroHash })
  refine ⟨rpcHeader, _, hheader, ?_, ?_, consensusHeader_nonce hconv nonce, ?_, ?_, ?_, ?_⟩
  · refine ⟨largeJobParam crates header header.timestamp, hpayload, ?_⟩
    rw [hentry]
    have hstate : powState crates { header with nonce } = powState crates header :=
      hl.powState_congr header header.hash nonce
    rw [hstate]
    exact announces_largeJobParam crates header
  · intro manager index hcall
    exact lookup_advance hcall hstage
  · rw [hentry]
    refine ⟨hpow _, ?_⟩
    intro minShareDiff
    simp only [verifyShare, hchecked]
  · intro state index params conn submission hnames
    have hevaluated := hnames.evaluates crates
    rw [hentry] at hevaluated
    have hwork : ∀ hash, powOf crates { header with nonce, hash } nonce =
        powOf crates header nonce := by
      intro hash
      rw [powOf, hl.uncached]
      rfl
    rw [hevaluated, hwork]
  · intro state index params conn submission hnames
    have hqueued := hnames.queues crates
    rw [hentry] at hqueued
    rw [hchecked, hqueued]
    simp only [withNonce, hheader, Option.map_some]
  · intro state index params conn submission hnames
    have hrecorded := hnames.records crates
    rw [hentry] at hrecorded
    rw [hchecked, hrecorded, hhash]

end Work

section Examples

/-- Crates that hash nonce and time by writing them down, and that read the
hashes of the template below. -/
def plainCrates : Crates :=
  { hashFromStr := fun s => if s = List.replicate 64 '0' then some zeroHash else none
    uint192FromHex := fun s => if s = lit "00" then some 0 else none
    compressParents := some
    headerHash := fun header => plainHash header.nonce header.timestamp
    hashOverrideNonceTime := fun _ nonce timestamp => plainHash nonce timestamp
    checkPow := fun header nonce => (nonce == 0x0001000000000007, ⟨header.timestamp.toNat + nonce.toNat, by
      have ht := header.timestamp.toNat_lt
      have hn := nonce.toNat_lt
      omega⟩) }
where
  plainHash (nonce timestamp : UInt64) : Hash :=
    ⟨(toLeBytes nonce ++ toLeBytes timestamp ++ List.replicate 16 0).toArray, by
      simp [length_toLeBytes]⟩

theorem plainCrates_lawful : Lawful plainCrates := by
  constructor
  · intro header
    rfl
  · intro header hash ownNonce nonce timestamp
    rfl
  · intro header header' nonce hs
    have htime : header.timestamp = header'.timestamp := congrArg PowState.timestamp hs
    simp only [plainCrates, htime]

/-- A template from one millisecond before the epoch. -/
def earlyTemplate : RpcBlock Unit :=
  let zeros := List.replicate 64 '0'
  ⟨some ⟨1, [[zeros]], zeros, zeros, zeros, -1, 0, 0, 0, lit "00", 0, zeros, zeros⟩, ()⟩

/-- A negative time is announced and submitted as it is checked. -/
theorem same_work_early :
    ∃ call, (newBlock plainCrates (Jobs.new Unit) earlyTemplate).calls = [] ++ [call] ∧
      ∃ rpcHeader decoded,
        SameWork plainCrates (fun _ => []) earlyTemplate call 0x0001000000000007 rpcHeader decoded :=
  ⟨_, rfl, same_work plainCrates_lawful rfl 0x0001000000000007⟩

end Examples

end StratumPool.OneWork
