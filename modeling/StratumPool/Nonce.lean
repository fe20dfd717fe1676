import StratumPool.Crossing

namespace StratumPool.Nonce

open Lib Lib.Runs StratumPool.Text StratumPool.Json StratumPool.Kaspa StratumPool.Submit
  StratumPool.Server
open StratumPool.Crossing (server conn)

/-- The number that a connection's `extranonce1` spells. -/
def extranonce (connId : UInt64) : Nat := connId.toNat % 2 ^ 16

section Digits

theorem lowHex_eq (connId : UInt64) : lowHex connId = HexText.padded 4 (extranonce connId) := by
  rw [lowHex, low_toNat]
  rfl

theorem length_lowHex (connId : UInt64) : (lowHex connId).length = 4 := by
  rw [lowHex_eq]
  exact HexText.length_padded (by decide) (Nat.mod_lt _ (by decide))

theorem length_le_len (s : Str) : s.length ≤ len s := by
  induction s with
  | nil => exact Nat.zero_le _
  | cons c s ih =>
    have hc : 0 < c.utf8Size := Char.utf8Size_pos c
    simp only [len, List.map_cons, List.sum_cons, List.length_cons] at ih ⊢
    omega

/-- The extranonce in front of up to twelve characters reads if and only if
these are digits, as the number whose top bits are the extranonce. -/
theorem prefixed_iff {clean : Str} (hlen : clean.length ≤ 12) (connId : UInt64) (n : Nat) :
    fromStrRadix16 (lowHex connId ++ clean.leftpad 12 '0') = some n ↔
      (∀ c ∈ clean, HexText.isHex c = true) ∧ n = extranonce connId * 2 ^ 48 + HexText.value clean := by
  have he : extranonce connId < 2 ^ 16 := Nat.mod_lt _ (by decide)
  have hpad : (clean.leftpad 12 '0').length = 12 := by
    rw [List.length_leftpad]
    omega
  have hvalue : HexText.value (lowHex connId ++ clean.leftpad 12 '0') =
      extranonce connId * 2 ^ 48 + HexText.value clean := by
    rw [HexText.value_append, hpad, lowHex_eq, HexText.value_padded, HexText.value_leftpad]
    rfl
  have hbound : HexText.value clean < 2 ^ 48 := by
    calc HexText.value clean < 16 ^ clean.length := HexText.value_lt clean
      _ ≤ 16 ^ 12 := Nat.pow_le_pow_right (by decide) hlen
  have hlow : ∀ c ∈ lowHex connId, HexText.isHex c = true := by
    rw [lowHex_eq]
    exact HexText.isHex_padded 4 _
  rw [fromStrRadix16_eq_some_iff]
  constructor
  · rintro ⟨ds, rfl | hs, -, hhex, hv, -⟩
    · refine ⟨HexText.isHex_leftpad.mp fun c hc => hhex c (List.mem_append_right _ hc), ?_⟩
      rw [← hv, hvalue]
    · -- a plus sign would be the first of the extranonce's own digits
      cases hx : lowHex connId with
      | nil =>
        have h4 := length_lowHex connId
        rw [hx] at h4
        cases h4
      | cons c cs =>
        rw [hx] at hs hlow
        have hplus := hlow c List.mem_cons_self
        rw [(List.cons.inj hs).1, isHex_plus] at hplus
        cases hplus
  · rintro ⟨hhex, rfl⟩
    refine ⟨_, .inl rfl, ?_, ?_, hvalue, by omega⟩
    · exact List.append_ne_nil_of_left_ne_nil (List.ne_nil_of_length_eq_add_one (length_lowHex connId)) _
    · intro c hc
      obtain hc | hc := List.mem_append.mp hc
      · exact hlow c hc
      · exact HexText.isHex_leftpad.mpr hhex c hc

theorem reads_lt {s : Str} {n : Nat} (h : fromStrRadix16 s = some n) : n < 2 ^ 64 := by
  obtain ⟨_, _, _, _, _, hn⟩ := fromStrRadix16_eq_some_iff.mp h
  exact hn

end Digits

section Ranges

/-- The miner's part of the nonce, up to twelve digits. -/
def ShortHex (clean : Str) : Prop := len clean ≤ 12 ∧ ∀ c ∈ clean, HexText.isHex c = true

/-- A text that decodes into the range of the extranonce `e`: the miner's part
alone, a longer numeral that begins with `e`, or, where `e` is zero, a text
that is no numeral. -/
def OwnRange (e : Nat) (clean : Str) : Prop :=
  ShortHex clean ∨ (∃ n, Reads clean n ∧ n / 2 ^ 48 = e) ∨ ((¬ ∃ n, Reads clean n) ∧ e = 0)

theorem decodeNonce_short {text : Str} (h : ShortHex (trimStart0x text)) (connId : UInt64) :
    (decodeNonce (lowHex connId) text).toNat =
      extranonce connId * 2 ^ 48 + HexText.value (trimStart0x text) := by
  have hlen := (length_le_len (trimStart0x text)).trans h.1
  have hread := (prefixed_iff hlen connId _).mpr ⟨h.2, rfl⟩
  have hlt := reads_lt hread
  rw [decodeNonce, if_pos h.1, hread, Option.getD_some, UInt64.toNat_ofNat_of_lt' hlt]

theorem decodeNonce_other {text : Str} (h : ¬ ShortHex (trimStart0x text)) (connId : UInt64) :
    (decodeNonce (lowHex connId) text).toNat = (fromStrRadix16 (trimStart0x text)).getD 0 := by
  have hlt : (fromStrRadix16 (trimStart0x text)).getD 0 < 2 ^ 64 := by
    cases hr : fromStrRadix16 (trimStart0x text) with
    | none => decide
    | some n => exact reads_lt hr
  rw [decodeNonce]
  by_cases hlen : len (trimStart0x text) ≤ 12
  · have hnone : fromStrRadix16 (lowHex connId ++ (trimStart0x text).leftpad 12 '0') = none := by
      rw [Option.eq_none_iff_forall_ne_some]
      intro n hn
      have hshort := (length_le_len (trimStart0x text)).trans hlen
      exact h ⟨hlen, ((prefixed_iff hshort connId n).mp hn).1⟩
    rw [if_pos hlen, hnone, Option.getD_none, UInt64.toNat_ofNat_of_lt' hlt]
  · rw [if_neg hlen, UInt64.toNat_ofNat_of_lt' hlt]

theorem decodeNonce_top_iff (text : Str) (connId : UInt64) :
    (decodeNonce (lowHex connId) text).toNat / 2 ^ 48 = extranonce connId ↔
      OwnRange (extranonce connId) (trimStart0x text) := by
  by_cases h : ShortHex (trimStart0x text)
  · refine iff_of_true ?_ (.inl h)
    have hlen := (length_le_len (trimStart0x text)).trans h.1
    have hbound : HexText.value (trimStart0x text) < 2 ^ 48 := by
      calc HexText.value (trimStart0x text) < 16 ^ (trimStart0x text).length := HexText.value_lt _
        _ ≤ 16 ^ 12 := Nat.pow_le_pow_right (by decide) hlen
    rw [decodeNonce_short h]
    omega
  · rw [decodeNonce_other h, OwnRange, or_iff_right h]
    simp only [← fromStrRadix16_eq_some_iff]
    cases fromStrRadix16 (trimStart0x text) with
    | none => simp [eq_comm]
    | some n => simp

end Ranges

section Cleaning

/-- The characters that the cleaning takes off the ends of a parameter. -/
def isWrapping (c : Char) : Bool := c == '"' || c == Char.ofNat 0 || isWhitespace c

/-- `s` is `core` with wrapping characters before and after it. -/
def Wraps (s core : Str) : Prop :=
  ∃ before after, s = before ++ core ++ after ∧ (∀ c ∈ before, isWrapping c = true) ∧
    ∀ c ∈ after, isWrapping c = true

theorem trim_core {before core after : Str} (hbefore : ∀ c ∈ before, isWhitespace c = true)
    (hafter : ∀ c ∈ after, isWhitespace c = true) (hcore : ∀ c ∈ core, isWhitespace c = false) :
    trim (before ++ core ++ after) = core := by
  have hkeep : ∀ l : Str, (∀ c ∈ l, isWhitespace c = false) → l.dropWhile isWhitespace = l := by
    intro l hl
    rw [List.dropWhile_eq_self_iff]
    intro h0
    simp [hl _ (List.getElem_mem h0)]
  have hback : ∀ l : Str, (∀ c ∈ l, isWhitespace c = false) →
      (l ++ after).rdropWhile isWhitespace = l := by
    intro l hl
    have hrev : ∀ c ∈ after.reverse, isWhitespace c = true :=
      fun c hc => hafter c (List.mem_reverse.mp hc)
    rw [List.rdropWhile, List.reverse_append, List.dropWhile_append_of_pos hrev,
      hkeep _ fun c hc => hl c (List.mem_reverse.mp hc), List.reverse_reverse]
  rw [trim, List.append_assoc, List.dropWhile_append_of_pos hbefore]
  cases core with
  | nil =>
    have hnil : (after ++ []).dropWhile isWhitespace = [] := by
      rw [List.dropWhile_append_of_pos hafter, List.dropWhile_nil]
    rw [List.append_nil] at hnil
    rw [List.nil_append, hnil, List.rdropWhile_nil]
  | cons c core =>
    have hc : isWhitespace c = false := hcore c List.mem_cons_self
    rw [List.cons_append, List.dropWhile_cons_of_neg (by simp [hc]), ← List.cons_append]
    exact hback _ hcore

/-- The two replacements before the trim. -/
def unquote (text : Str) : Str := without (Char.ofNat 0) (without '"' text)

theorem mem_unquote {c : Char} {text : Str} :
    c ∈ unquote text ↔ c ∈ text ∧ c ≠ '"' ∧ c ≠ Char.ofNat 0 := by
  simp only [unquote, without, List.mem_filter, bne_iff_ne, and_assoc]

theorem unquote_append (s t : Str) : unquote (s ++ t) = unquote s ++ unquote t := by
  simp only [unquote, without, List.filter_append]

theorem not_wrapping {c : Char} (h : isWrapping c = false) :
    c ≠ '"' ∧ c ≠ Char.ofNat 0 ∧ isWhitespace c = false := by
  simpa [isWrapping, and_assoc] using h

theorem unquote_core {core : Str} (hcore : ∀ c ∈ core, isWrapping c = false) :
    unquote core = core := by
  have hquote : without '"' core = core := by
    refine List.filter_eq_self.mpr fun c hc => ?_
    exact bne_iff_ne.mpr (not_wrapping (hcore c hc)).1
  rw [unquote, hquote]
  refine List.filter_eq_self.mpr fun c hc => ?_
  exact bne_iff_ne.mpr (not_wrapping (hcore c hc)).2.1

theorem unquote_wrapping {l : Str} (hl : ∀ c ∈ l, isWrapping c = true) :
    ∀ c ∈ unquote l, isWhitespace c = true := by
  intro c hc
  obtain ⟨hc, hquote, hnul⟩ := mem_unquote.mp hc
  simpa [isWrapping, hquote, hnul] using hl c hc

theorem cleanParam_wraps (float : Float → Str) {s core : Str} (hw : Wraps s core)
    (hcore : ∀ c ∈ core, isWrapping c = false) : cleanParam float (.string s) = core := by
  obtain ⟨before, after, rfl, hbefore, hafter⟩ := hw
  change trim (unquote (before ++ core ++ after)) = core
  rw [unquote_append, unquote_append, unquote_core hcore]
  apply trim_core (unquote_wrapping hbefore) (unquote_wrapping hafter)
  exact fun c hc => (not_wrapping (hcore c hc)).2.2

theorem isHex_range {c : Char} (h : HexText.isHex c = true) :
    (48 ≤ c.toNat ∧ c.toNat ≤ 57) ∨ (65 ≤ c.toNat ∧ c.toNat ≤ 70) ∨
      (97 ≤ c.toNat ∧ c.toNat ≤ 102) := by
  simp only [HexText.isHex, HexText.digitVal, Char.le_def, UInt32.le_iff_toNat_le] at h
  split_ifs at h with h0 ha hA
  · exact .inl h0
  · exact .inr (.inr ha)
  · exact .inr (.inl hA)
  · cases h

theorem not_wrapping_of_hex {c : Char} (h : HexText.isHex c = true) : isWrapping c = false := by
  have hrange := isHex_range h
  have hquote : c ≠ '"' := by
    rintro rfl
    cases h
  have hnul : c ≠ Char.ofNat 0 := by
    rintro rfl
    cases h
  have hspace : isWhitespace c = false := by
    simp only [isWhitespace, Bool.or_eq_false_iff, Bool.and_eq_false_iff, decide_eq_false_iff_not,
      beq_eq_false_iff_ne]
    omega
  simp [isWrapping, hquote, hnul, hspace]

theorem trimStart0x_hex {ds : Str} (hhex : ∀ c ∈ ds, HexText.isHex c = true) : trimStart0x ds = ds := by
  rw [trimStart0x]
  rintro rest rfl
  have hx := hhex 'x' (by simp)
  cases hx

/-- `s` spells the digits: alone or after a `0x`, with any wrapping. -/
def Spelled (ds s : Str) : Prop := Wraps s ds ∨ Wraps s (lit "0x" ++ ds)

theorem clean_spelled (float : Float → Str) {ds s : Str} (h : Spelled ds s)
    (hhex : ∀ c ∈ ds, HexText.isHex c = true) :
    trimStart0x (cleanParam float (.string s)) = ds := by
  have hds : ∀ c ∈ ds, isWrapping c = false := fun c hc => not_wrapping_of_hex (hhex c hc)
  obtain hw | hw := h
  · rw [cleanParam_wraps float hw hds, trimStart0x_hex hhex]
  · have hcore : ∀ c ∈ lit "0x" ++ ds, isWrapping c = false := by
      intro c hc
      obtain hc | hc := List.mem_append.mp hc
      · have hprefix : ∀ c ∈ lit "0x", isWrapping c = false := by
          simp [lit, isWrapping, isWhitespace]
        exact hprefix c hc
      · exact hds c hc
    rw [cleanParam_wraps float hw hcore]
    exact trimStart0x_hex hhex

end Cleaning

section Calls

variable {Body : Type} (crates : Crates) (float : Float → Str)

/-- The header and the nonce that a submission calls `verify_share` with. -/
def verifyCall (state : State Body) (index : Nat) (params : Option (List (Value Float))) :
    Option (Header × UInt64) := do
  let (_, submission, verdict) ← verdictOf crates float state (.submit index params)
  let header ← verdict.header
  return (header, submission.nonce)

theorem evaluated_submit (state : State Body) (index : Nat) (params : Option (List (Value Float))) :
    (step crates float state (.submit index params)).evaluated =
      state.evaluated ++ (verifyCall crates float state index params).toList.map
        (fun call => powOf crates call.1 call.2) := by
  rw [Server.step, verifyCall]
  obtain ⟨hverdict, hsubmit⟩ | ⟨conn, submission, -, hverdict, hsubmit⟩ :=
    submit_cases crates float state index params
  · simp [hverdict, hsubmit]
  · rw [hverdict, hsubmit, settleSubmission]
    cases judge crates state.jobs.activeJobs conn.currentDiff submission <;>
      simp [setConnection, Verdict.header]

theorem verifyCall_active {state : State Body} {index : Nat} {conn : Connection}
    (hconn : state.connections[index]? = some conn) (worker jobId nonce : Value Float)
    (rest : List (Value Float)) :
    verifyCall crates float state index (some (worker :: jobId :: nonce :: rest)) =
      (state.jobs.activeJobs.lookup (cleanParam float jobId)).map (fun entry =>
        (entry.1, decodeNonce conn.extranonce1 (cleanParam float nonce))) := by
  simp only [verifyCall, verdictOf, hconn, readSubmission, bind, Option.bind_some, pure,
    header_judge]
  cases state.jobs.activeJobs.lookup (cleanParam float jobId) <;> rfl

/-- Every connection has the extranonce of some number the counter gave out. -/
def Named (state : State Body) : Prop :=
  ∀ conn ∈ state.connections, ∃ connId, conn.extranonce1 = lowHex connId

theorem named_set {state : State Body} (h : Named state) {index : Nat} {conn : Connection}
    (hconn : state.connections[index]? = some conn) {conn' : Connection}
    (hsame : conn'.extranonce1 = conn.extranonce1) :
    ∀ c ∈ state.connections.set index conn', ∃ connId, c.extranonce1 = lowHex connId := by
  intro c hc
  obtain hc | rfl := List.mem_or_eq_of_mem_set hc
  · exact h c hc
  · rw [hsame]
    exact h conn (List.mem_of_getElem? hconn)

theorem named_step {state : State Body} (h : Named state) (a : Server.Action Body) :
    Named (step crates float state a) := by
  cases a with
  | connect connId currentDiff =>
    intro c hc
    obtain hc | hc := List.mem_append.mp hc
    · exact h c hc
    · rw [List.mem_singleton.mp hc]
      exact ⟨connId, rfl⟩
  | disconnect index => exact fun c hc => h c (List.mem_of_mem_eraseIdx hc)
  | retarget index newDiff =>
    simp only [Server.step, retarget]
    split
    · exact h
    · rename_i conn hconn
      exact named_set h hconn rfl
  | submit index params =>
    rw [Server.step]
    obtain ⟨-, hsubmit⟩ | ⟨conn, submission, hconn, -, hsubmit⟩ :=
      submit_cases crates float state index params
    · rwa [hsubmit]
    · rw [hsubmit, settleSubmission]
      split <;> exact named_set h hconn rfl
  | jobs action => exact h
  | receiveShare => exact h
  | closeShares => exact h
  | forwardBlock => exact h

theorem named_run (as : List (Server.Action Body)) :
    Always (step crates float) Named (boot Body) as :=
  always_of_invariant (fun _ hc => absurd hc List.not_mem_nil)
    (fun _ a h => named_step crates float h a) as

end Calls

section Attempts

variable {Body : Type} (crates : Crates) (float : Float → Str)

/-- A submission with at least three parameters on a connection of the server. -/
structure Attempt (Body : Type) where
  state : State Body
  index : Nat
  conn : Connection
  found : state.connections[index]? = some conn
  connId : UInt64
  named : conn.extranonce1 = lowHex connId
  worker : Value Float
  jobId : Value Float
  nonce : Value Float
  rest : List (Value Float)

namespace Attempt

def params (attempt : Attempt Body) : Option (List (Value Float)) :=
  some (attempt.worker :: attempt.jobId :: attempt.nonce :: attempt.rest)

def call (attempt : Attempt Body) : Option (Header × UInt64) :=
  verifyCall crates float attempt.state attempt.index attempt.params

def after (attempt : Attempt Body) : State Body :=
  Server.step crates float attempt.state (.submit attempt.index attempt.params)

/-- The job that the submission names is active. -/
def Active (attempt : Attempt Body) : Prop :=
  (attempt.state.jobs.activeJobs.lookup (cleanParam float attempt.jobId)).isSome = true

/-- `clean_nonce` -/
def text (attempt : Attempt Body) : Str := trimStart0x (cleanParam float attempt.nonce)

end Attempt

/-- Whatever three parameters come on a connection of a server that has run from
its start make an attempt. -/
theorem attempt_of_run (as : List (Server.Action Body)) {index : Nat} {conn : Connection}
    (h : (serve crates float as).connections[index]? = some conn) (worker jobId nonce : Value Float)
    (rest : List (Value Float)) :
    ∃ attempt : Attempt Body, attempt.state = serve crates float as ∧ attempt.index = index ∧
      attempt.params = some (worker :: jobId :: nonce :: rest) := by
  obtain ⟨connId, hnamed⟩ :=
    (named_run crates float as).last conn (List.mem_of_getElem? h)
  exact ⟨⟨serve crates float as, index, conn, h, connId, hnamed, worker, jobId, nonce, rest⟩,
    rfl, rfl, rfl⟩

theorem call_iff (attempt : Attempt Body) (nonce : UInt64) :
    (∃ header, attempt.call crates float = some (header, nonce)) ↔ attempt.Active float ∧
      nonce = decodeNonce (lowHex attempt.connId) (cleanParam float attempt.nonce) := by
  rw [Attempt.call, Attempt.params, verifyCall_active crates float attempt.found, attempt.named,
    Attempt.Active]
  cases attempt.state.jobs.activeJobs.lookup (cleanParam float attempt.jobId) with
  | none => simp
  | some entry => simp [eq_comm]

/-- The nonce that a submission has evaluated, if any, begins with the
connection's extranonce if and only if the job is not active or the text is one
of the connection's own range; two submissions on connections with different
extranonces then have different nonces evaluated. -/
theorem nonce_partition_iff (attempt : Attempt Body) :
    ((∀ header nonce, attempt.call crates float = some (header, nonce) →
        nonce.toNat / 2 ^ 48 = extranonce attempt.connId) ↔
      (attempt.Active float → OwnRange (extranonce attempt.connId) (attempt.text float))) ∧
    ∀ attempt' : Attempt Body,
      OwnRange (extranonce attempt.connId) (attempt.text float) →
      OwnRange (extranonce attempt'.connId) (attempt'.text float) →
      extranonce attempt.connId ≠ extranonce attempt'.connId →
      ∀ header header' nonce nonce', attempt.call crates float = some (header, nonce) →
        attempt'.call crates float = some (header', nonce') → nonce ≠ nonce' := by
  have htop : ∀ other : Attempt Body, OwnRange (extranonce other.connId) (other.text float) →
      ∀ header nonce, other.call crates float = some (header, nonce) →
        nonce.toNat / 2 ^ 48 = extranonce other.connId := by
    intro other hrange header nonce hcall
    obtain ⟨-, rfl⟩ := (call_iff crates float other nonce).mp ⟨header, hcall⟩
    exact (decodeNonce_top_iff _ _).mpr hrange
  refine ⟨⟨?_, ?_⟩, ?_⟩
  · intro h hactive
    obtain ⟨header, hcall⟩ := (call_iff crates float attempt _).mpr ⟨hactive, rfl⟩
    exact (decodeNonce_top_iff _ _).mp (h header _ hcall)
  · intro h header nonce hcall
    obtain ⟨hactive, -⟩ := (call_iff crates float attempt nonce).mp ⟨header, hcall⟩
    exact htop attempt (h hactive) header nonce hcall
  · intro attempt' hrange hrange' hne header header' nonce nonce' hcall hcall' he
    have h := htop attempt hrange header nonce hcall
    have h' := htop attempt' hrange' header' nonce' hcall'
    rw [he] at h
    exact hne (h.symm.trans h')

section Malformed

/-- One optional prefix, where the code takes off every one. -/
def strip0x : Str → Str
  | '0' :: 'x' :: rest => rest
  | s => s

def WellFormed (nonce : Value Float) : Prop :=
  strip0x (cleanParam float nonce) ≠ [] ∧ (strip0x (cleanParam float nonce)).length ≤ 16 ∧
    ∀ c ∈ strip0x (cleanParam float nonce), HexText.isHex c = true

/-- Nothing was verified, credited or found. -/
structure Unheeded (before after : State Body) : Prop where
  evaluated : after.evaluated = before.evaluated
  credits : after.validShares = before.validShares
  blocks : after.blockSubmits = before.blockSubmits
  events : after.blockEvents = before.blockEvents

theorem unheeded_iff (attempt : Attempt Body) :
    Unheeded attempt.state (attempt.after crates float) ↔ ¬ attempt.Active float := by
  have hcall := call_iff crates float attempt
  have hevaluated := evaluated_submit crates float attempt.state attempt.index attempt.params
  constructor
  · intro h hactive
    obtain ⟨header, hsome⟩ := (hcall _).mpr ⟨hactive, rfl⟩
    rw [Attempt.call] at hsome
    have hsame := h.evaluated
    rw [Attempt.after, hevaluated, hsome] at hsame
    simp at hsame
  · intro hinactive
    have hlookup : attempt.state.jobs.activeJobs.lookup (cleanParam float attempt.jobId) = none := by
      simpa [Attempt.Active] using hinactive
    simp only [Attempt.after, Attempt.params, Server.step, submit, attempt.found, readSubmission,
      settleSubmission, judge, hlookup]
    exact ⟨rfl, rfl, rfl, rfl⟩

/-- A malformed nonce goes unheeded if and only if its job is not active: the
text is never the reason. -/
theorem malformed_unheeded_iff (attempt : Attempt Body) :
    (¬ WellFormed float attempt.nonce → Unheeded attempt.state (attempt.after crates float)) ↔
      (¬ WellFormed float attempt.nonce → ¬ attempt.Active float) :=
  imp_congr_right fun _ => unheeded_iff crates float attempt

end Malformed

section Exact

/-- The texts that mean the miner's number `v` behind the extranonce `e`: one to
twelve digits for `v`, or sixteen for the whole nonce. -/
inductive Spelling (e v : Nat) (s : Str) : Prop where
  | part (ds : Str) (spelled : Spelled ds s) (nonempty : ds ≠ []) (short : ds.length ≤ 12)
      (hex : ∀ c ∈ ds, HexText.isHex c = true) (value : HexText.value ds = v)
  | full (ds : Str) (spelled : Spelled ds s) (length : ds.length = 16)
      (hex : ∀ c ∈ ds, HexText.isHex c = true) (value : HexText.value ds = e * 2 ^ 48 + v)

/-- The text is read as the number, and no parse on the way fails. -/
structure ReadsAs (attempt : Attempt Body) (n : Nat) : Prop where
  decoded : (decodeNonce (lowHex attempt.connId) (cleanParam float attempt.nonce)).toNat = n
  parsed : (fromStrRadix16 (attempt.text float)).isSome = true
  prefixed : len (attempt.text float) ≤ 12 →
    (fromStrRadix16 (lowHex attempt.connId ++ (attempt.text float).leftpad 12 '0')).isSome = true

theorem len_hex {ds : Str} (hhex : ∀ c ∈ ds, HexText.isHex c = true) : len ds = ds.length := by
  induction ds with
  | nil => rfl
  | cons c ds ih =>
    have hc : c.utf8Size = 1 := by
      have hrange := isHex_range (hhex c List.mem_cons_self)
      rw [Char.utf8Size_eq_one_iff, UInt32.le_iff_toNat_le]
      change c.toNat ≤ 127
      omega
    have htail := ih fun d hd => hhex d (List.mem_cons_of_mem c hd)
    simp only [len, List.map_cons, List.sum_cons, List.length_cons] at htail ⊢
    omega

theorem parsed_of_hex {ds : Str} (hne : ds ≠ []) (hlen : ds.length ≤ 16)
    (hhex : ∀ c ∈ ds, HexText.isHex c = true) : fromStrRadix16 ds = some (HexText.value ds) := by
  refine fromStrRadix16_eq_some_iff.mpr ⟨ds, .inl rfl, hne, hhex, rfl, ?_⟩
  calc HexText.value ds < 16 ^ ds.length := HexText.value_lt ds
    _ ≤ 16 ^ 16 := Nat.pow_le_pow_right (by decide) hlen

theorem readsAs_of_spelling {attempt : Attempt Body} {s : Str} (hs : attempt.nonce = .string s)
    {v : Nat} (h : Spelling (extranonce attempt.connId) v s) :
    ReadsAs float attempt (extranonce attempt.connId * 2 ^ 48 + v) := by
  cases h with
  | part ds hspelled hne hlen hhex hv =>
    have htext : attempt.text float = ds := by
      rw [Attempt.text, hs, clean_spelled float hspelled hhex]
    have hshort : ShortHex (attempt.text float) := by
      rw [htext]
      exact ⟨(len_hex hhex).trans_le hlen, hhex⟩
    refine ⟨?_, ?_, ?_⟩
    · rw [decodeNonce_short hshort, ← Attempt.text, htext, hv]
    · rw [htext, parsed_of_hex hne (by omega) hhex]
      rfl
    · intro _
      rw [htext, (prefixed_iff hlen attempt.connId _).mpr ⟨hhex, rfl⟩]
      rfl
  | full ds hspelled hlen hhex hv =>
    have htext : attempt.text float = ds := by
      rw [Attempt.text, hs, clean_spelled float hspelled hhex]
    have hlong : ¬ len (attempt.text float) ≤ 12 := by
      rw [htext, len_hex hhex]
      omega
    have hparsed : fromStrRadix16 (attempt.text float) = some (HexText.value ds) := by
      rw [htext]
      exact parsed_of_hex (List.ne_nil_of_length_eq_add_one hlen) hlen.le hhex
    refine ⟨?_, ?_, fun hle => absurd hle hlong⟩
    · rw [decodeNonce_other fun hshort => hlong hshort.1, ← Attempt.text, hparsed, Option.getD_some,
        hv]
    · rw [hparsed]
      rfl

/-- Every spelling of `v` is evaluated as the extranonce followed by `v`, and
different numbers or extranonces never meet in one nonce. -/
theorem nonce_exact {attempt : Attempt Body} {s : Str} (hs : attempt.nonce = .string s) {v : Nat}
    (hv : v < 2 ^ 48) (h : Spelling (extranonce attempt.connId) v s) :
    ReadsAs float attempt (extranonce attempt.connId * 2 ^ 48 + v) ∧
    (attempt.Active float → ∃ header nonce, attempt.call crates float = some (header, nonce) ∧
      nonce.toNat = extranonce attempt.connId * 2 ^ 48 + v) ∧
    ∀ (attempt' : Attempt Body) (s' : Str) (v' : Nat), attempt'.nonce = .string s' → v' < 2 ^ 48 →
      Spelling (extranonce attempt'.connId) v' s' →
      decodeNonce (lowHex attempt.connId) (cleanParam float attempt.nonce) =
        decodeNonce (lowHex attempt'.connId) (cleanParam float attempt'.nonce) →
      extranonce attempt.connId = extranonce attempt'.connId ∧ v = v' := by
  have hread := readsAs_of_spelling float hs h
  refine ⟨hread, ?_, ?_⟩
  · intro hactive
    obtain ⟨header, hcall⟩ := (call_iff crates float attempt _).mpr ⟨hactive, rfl⟩
    exact ⟨header, _, hcall, hread.decoded⟩
  · intro attempt' s' v' hs' hv' h' he
    have hread' := readsAs_of_spelling float hs' h'
    have hsame := hread.decoded
    rw [he, hread'.decoded] at hsame
    constructor <;> omega

end Exact

end Attempts

section Examples

/-- The first connection submits this text as the nonce of its first job. -/
def attempt (nonce : Str) : Attempt Unit :=
  { state := server
    index := 0
    conn := conn
    found := rfl
    connId := 1
    named := rfl
    worker := .string (lit "kaspa:qz0.rig")
    jobId := .string (lit "0001")
    nonce := .string nonce
    rest := [] }

theorem attempt_active (nonce : Str) : (attempt nonce).Active (fun _ => []) := rfl

/-- Sixteen digits may begin with another connection's extranonce. -/
theorem nonce_outside_partition :
    ¬ ∀ crates : Crates, ∀ float : Float → Str, ∀ attempt : Attempt Unit, ∀ header nonce,
      attempt.call crates float = some (header, nonce) →
        nonce.toNat / 2 ^ 48 = extranonce attempt.connId := by
  intro h
  obtain ⟨header, hcall⟩ := (call_iff tameCrates (fun _ => [])
    (attempt (lit "0002000000000007")) _).mpr ⟨attempt_active _, rfl⟩
  have htop := h tameCrates (fun _ => []) _ header _ hcall
  have htwo : (decodeNonce (lowHex 1) (cleanParam (fun _ => [])
      (.string (lit "0002000000000007")))).toNat / 2 ^ 48 = 2 := by decide +kernel
  have hone : extranonce 1 = 1 := rfl
  have hsame : (2 : Nat) = 1 := htwo.symm.trans (htop.trans hone)
  omega

/-- A text without any digit is evaluated as the nonce zero. -/
theorem malformed_nonce_evaluated :
    ¬ ∀ crates : Crates, ∀ float : Float → Str, ∀ attempt : Attempt Unit,
      ¬ WellFormed float attempt.nonce → Unheeded attempt.state (attempt.after crates float) := by
  intro h
  have hbad : ¬ WellFormed (fun _ => []) (attempt (lit "zz")).nonce := by
    rintro ⟨-, -, hhex⟩
    have hz := hhex 'z' (by decide)
    cases hz
  have hnone := (unheeded_iff tameCrates (fun _ => []) (attempt (lit "zz"))).mp
    (h tameCrates (fun _ => []) (attempt (lit "zz")) hbad)
  exact hnone (attempt_active _)

/-- The text `" 0x00FF "`, its quotes and spaces included. -/
theorem wrapped_nonce_exact :
    ReadsAs (fun _ => []) (attempt (lit "\" 0x00FF \"")) (1 * 2 ^ 48 + 255) := by
  have hspelling : Spelling (extranonce 1) 255 (lit "\" 0x00FF \"") := by
    refine .part (lit "00FF") (.inr ⟨lit "\" ", lit " \"", rfl, ?_, ?_⟩) ?_ ?_ ?_ rfl
    · simp [lit, isWrapping, isWhitespace]
    · simp [lit, isWrapping, isWhitespace]
    · simp [lit]
    · decide
    · simp [lit, HexText.isHex, HexText.digitVal]
  have hs : (attempt (lit "\" 0x00FF \"")).nonce = .string (lit "\" 0x00FF \"") := rfl
  exact (nonce_exact tameCrates (fun _ => []) hs (by decide) hspelling).1

end Examples

end StratumPool.Nonce
