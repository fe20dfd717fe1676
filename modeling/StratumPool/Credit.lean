import StratumPool.BlockRelay
import StratumPool.Crossing
import StratumPool.Vardiff

namespace StratumPool.Credit

open StratumPool.Text StratumPool.Json StratumPool.Kaspa StratumPool.DiffEngine
  StratumPool.Submit StratumPool.Server
open StratumPool.BlockRelay (luckyCrates)
open StratumPool.Crossing (server conn templateHeader)

variable {Body : Type} (crates : Crates) (float : Float → Str)

/-- One message of the worker at the connection's difficulty enters the
accounting channel, and vardiff counts the share. -/
structure Credited (before after : State Body) (index : Nat) (conn : Connection) (worker : Str) :
    Prop where
  sent : after.validShares.sent = before.validShares.sent ++ [(worker, conn.currentDiff.toFloat)]
  counted : ∃ conn', after.connections[index]? = some conn' ∧ conn'.shareCount = conn.shareCount + 1

section Tests

variable {state : State Body} {index : Nat} {params : Option (List (Value Float))}
  {conn : Connection} {submission : Submission} {header : Header} {rpcBlock : RpcBlock Body}

/-- A submission for an active job counts as a share if it passes the one test
of `verify_share` and fails the other. -/
theorem acceptedShare_active (hconn : state.connections[index]? = some conn)
    (hread : readSubmission float conn.extranonce1 params = some submission)
    (hjob : state.jobs.activeJobs.lookup submission.jobId = some (header, rpcBlock)) :
    acceptedShare crates float state (.submit index params) =
      match verifyShare crates header submission.nonce conn.currentDiff.toFloat with
      | (true, false) => some (submission.worker, conn.currentDiff.toFloat)
      | _ => none := by
  rw [acceptedShare, verdictOf_submit crates float hconn hread]
  simp only [judge, hjob]
  obtain ⟨isValidShare, isNetworkBlock⟩ :=
    verifyShare crates header submission.nonce conn.currentDiff.toFloat
  cases isValidShare <;> cases isNetworkBlock <;> rfl

theorem credited_iff_accepted (hconn : state.connections[index]? = some conn)
    (hroom : state.validShares.accepts = true) (worker : Str) :
    Credited state (step crates float state (.submit index params)) index conn worker ↔
      acceptedShare crates float state (.submit index params) =
        some (worker, conn.currentDiff.toFloat) := by
  obtain ⟨hchannel, -, -, hconns⟩ := submit_outcome crates float state index params
  obtain ⟨conn', hconn', -, hcount⟩ := hconns conn hconn
  constructor
  · intro h
    have hsent := h.sent
    rw [hchannel] at hsent
    cases ha : acceptedShare crates float state (.submit index params) with
    | none => simp [ha] at hsent
    | some message => simpa [ha, hroom] using hsent
  · intro ha
    refine ⟨?_, conn', hconn', by simpa [ha] using hcount⟩
    simp [hchannel, ha, hroom]

/-- A share that meets the pool target, with room for its message, is credited
if and only if its hash does not also meet the network target. -/
theorem pool_share_credited_iff (hconn : state.connections[index]? = some conn)
    (hread : readSubmission float conn.extranonce1 params = some submission)
    (hjob : state.jobs.activeJobs.lookup submission.jobId = some (header, rpcBlock))
    (hroom : state.validShares.accepts = true)
    (hmeets : (crates.checkPow { header with nonce := submission.nonce } submission.nonce).2.val ≤
      poolTarget conn.currentDiff.toFloat) :
    Credited state (step crates float state (.submit index params)) index conn submission.worker ↔
      (crates.checkPow { header with nonce := submission.nonce } submission.nonce).1 = false := by
  rw [credited_iff_accepted crates float hconn hroom,
    acceptedShare_active crates float hconn hread hjob]
  cases hnet : (crates.checkPow { header with nonce := submission.nonce } submission.nonce).1 with
  | false => simp [verifyShare, hnet, hmeets]
  | true => simp [verifyShare, hnet, hmeets]

end Tests

section Enforcement

theorem judge_of_verdictOf {state : State Body} {a : Server.Action Body} {conn : Connection}
    {submission : Submission} {verdict : Verdict Body}
    (h : verdictOf crates float state a = some (conn, submission, verdict)) :
    judge crates state.jobs.activeJobs conn.currentDiff submission = verdict := by
  cases a with
  | submit index params =>
    obtain ⟨hnone, -⟩ | ⟨conn', submission', -, hsome, -⟩ :=
      submit_cases crates float state index params
    · rw [hnone] at h
      cases h
    · rw [hsome] at h
      cases h
      rfl
  | _ => cases h

/-- What the difficulty `2 ^ k` comes to: which hashes pass, that they pass every
smaller one, and what a share that passes is credited with. -/
structure Enforces (k : Nat) : Prop where
  target : ∀ header nonce,
    (verifyShare crates header nonce (UInt64.toFloat (2 ^ k))).1 = true ↔
      (crates.checkPow { header with nonce := nonce } nonce).2.val < 2 ^ (256 - k)
  easier : ∀ header nonce j, j ≤ k →
    (verifyShare crates header nonce (UInt64.toFloat (2 ^ k))).1 = true →
      (verifyShare crates header nonce (UInt64.toFloat (2 ^ j))).1 = true
  credited : ∀ (state : State Body) index params conn submission header rpcBlock,
    state.connections[index]? = some conn → conn.currentDiff = 2 ^ k →
    readSubmission float conn.extranonce1 params = some submission →
    state.jobs.activeJobs.lookup submission.jobId = some (header, rpcBlock) →
    (crates.checkPow { header with nonce := submission.nonce } submission.nonce).1 = false →
      ∃ difficulty, Lib.Binary64.toRat difficulty = 2 ^ k ∧
        (step crates float state (.submit index params)).validShares.sent =
          state.validShares.sent ++
            if (verifyShare crates header submission.nonce difficulty).1 ∧
                state.validShares.accepts then
              [(submission.worker, difficulty)]
            else []

/-- The casts and the division change nothing in what is accepted at a power of
two, and nothing in what is credited. -/
theorem enforced_exactly {k : Nat} (hk : k ≤ 63) : @Enforces Body crates float k where
  target := fun header nonce => verifyShare_two_pow crates header nonce (by omega)
  easier := by
    intro header nonce j hj hmeets
    rw [verifyShare_two_pow crates header nonce (by omega)] at hmeets ⊢
    exact hmeets.trans_le (Nat.pow_le_pow_right (by decide) (by omega))
  credited := by
    intro state index params conn submission header rpcBlock hconn hcurrent hread hjob hnetwork
    refine ⟨conn.currentDiff.toFloat, ?_, ?_⟩
    · rw [hcurrent, (Vardiff.toFloat_reached (Vardiff.reached_two_pow k)).2,
        Vardiff.toNat_two_pow_lt (by omega), Nat.cast_pow, Nat.cast_ofNat]
    · obtain ⟨hchannel, -⟩ := submit_outcome crates float state index params
      have hverify : verifyShare crates header submission.nonce conn.currentDiff.toFloat =
          ((verifyShare crates header submission.nonce conn.currentDiff.toFloat).1, false) := by
        simp [verifyShare, hnetwork]
      rw [hchannel, acceptedShare_active crates float hconn hread hjob, hverify]
      cases (verifyShare crates header submission.nonce conn.currentDiff.toFloat).1 with
      | false => simp
      | true => simp

theorem enforced_exactly_hardest : @Enforces Unit tameCrates (fun _ => []) 63 :=
  enforced_exactly tameCrates (fun _ => []) le_rfl

end Enforcement

section Examples

def submission : Submission := ⟨lit "kaspa:qz0.rig", lit "0001", 0x0001000000000007⟩

theorem pool_share_credited :
    Credited server (step tameCrates (fun _ => []) server (.submit 0 (shareParams (lit "7")))) 0 conn
      submission.worker := by
  have hread : readSubmission (fun _ => []) conn.extranonce1 (shareParams (lit "7")) =
      some submission := rfl
  have hjob : server.jobs.activeJobs.lookup submission.jobId = some (templateHeader, template) := rfl
  exact (pool_share_credited_iff tameCrates (fun _ => []) rfl hread hjob rfl
    (by decide +kernel)).mpr rfl

/-- The nonce that wins a block earns its miner nothing. -/
theorem winning_share_uncredited :
    ¬ ∀ crates : Crates, ∀ float : Float → Str, ∀ state : State Unit, ∀ index params conn submission
      header rpcBlock, state.connections[index]? = some conn →
      readSubmission float conn.extranonce1 params = some submission →
      state.jobs.activeJobs.lookup submission.jobId = some (header, rpcBlock) →
      state.validShares.accepts = true →
      (crates.checkPow { header with nonce := submission.nonce } submission.nonce).2.val ≤
        poolTarget conn.currentDiff.toFloat →
      Credited state (step crates float state (.submit index params)) index conn
        submission.worker := by
  intro h
  have hcredited := h luckyCrates (fun _ => []) server 0 (shareParams (lit "7")) conn submission
    templateHeader template rfl rfl rfl rfl (Nat.zero_le _)
  have hnone : (step luckyCrates (fun _ => []) server
      (.submit 0 (shareParams (lit "7")))).validShares.sent.length = 0 := by decide +kernel
  have hlen := congrArg List.length hcredited.sent
  rw [hnone, List.length_append] at hlen
  simp at hlen

end Examples

end StratumPool.Credit
