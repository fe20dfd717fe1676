import StratumPool.DiffEngine
import StratumPool.Jobs

namespace StratumPool.Submit

open Lib StratumPool.Text StratumPool.Json StratumPool.Kaspa StratumPool.DiffEngine
  StratumPool.Jobs

/-- What two submissions have in common when they prove the same work. -/
structure ProofOfWork where
  prePowHash : Hash
  timestamp : UInt64
  nonce : UInt64
  deriving DecidableEq

/-- The fields of one `mining.submit` after their cleaning. -/
structure Submission where
  worker : Str
  jobId : Str
  nonce : UInt64

section Reading

/-- A parameter as text without quotes, NULs and outer white space. `float`
prints the numbers that are no integers. -/
def cleanParam (float : Float → Str) (param : Value Float) : Str :=
  let text :=
    match param with
    | .string s => s
    | v => render float v
  trim (without (Char.ofNat 0) (without '"' text))

/-- The nonce of a submission. A text of up to twelve bytes is the miner's part
and follows the connection's extranonce; what cannot be read counts as zero, or
as the first reading where that succeeded. -/
def decodeNonce (extranonce1 nonceStr : Str) : UInt64 :=
  let cleanNonce := trimStart0x nonceStr
  let nonce := (fromStrRadix16 cleanNonce).getD 0
  if len cleanNonce ≤ 12 then
    UInt64.ofNat ((fromStrRadix16 (extranonce1 ++ cleanNonce.leftpad 12 '0')).getD nonce)
  else UInt64.ofNat nonce

def readSubmission (float : Float → Str) (extranonce1 : Str) (params : Option (List (Value Float))) :
    Option Submission :=
  match params with
  | some (worker :: jobId :: nonce :: _) =>
      some ⟨cleanParam float worker, cleanParam float jobId,
        decodeNonce extranonce1 (cleanParam float nonce)⟩
  | _ => none

end Reading

section Judging

variable {Body : Type} (crates : Crates)

def powOf (header : Header) (nonce : UInt64) : ProofOfWork :=
  ⟨crates.hashOverrideNonceTime header 0 0, header.timestamp, nonce⟩

inductive Verdict (Body : Type) where
  | stale
  | networkBlock (header : Header) (rpcBlock : RpcBlock Body)
  | share (header : Header)
  | invalid (header : Header)

def judge (activeJobs : Table Str (JobEntry Body)) (currentDiff : UInt64) (submission : Submission) :
    Verdict Body :=
  match activeJobs.lookup submission.jobId with
  | none => .stale
  | some (consensusHeader, rpcBlock) =>
      let (isValidShare, isNetworkBlock) :=
        verifyShare crates consensusHeader submission.nonce currentDiff.toFloat
      if isNetworkBlock then .networkBlock consensusHeader rpcBlock
      else if isValidShare then .share consensusHeader
      else .invalid consensusHeader

/-- The header a verdict is about, none where nothing was verified. -/
def Verdict.header : Verdict Body → Option Header
  | .stale => none
  | .networkBlock header _ => some header
  | .share header => some header
  | .invalid header => some header

theorem header_judge (activeJobs : Table Str (JobEntry Body)) (currentDiff : UInt64)
    (submission : Submission) :
    (judge crates activeJobs currentDiff submission).header =
      (activeJobs.lookup submission.jobId).map Prod.fst := by
  rw [judge]
  cases activeJobs.lookup submission.jobId with
  | none => rfl
  | some entry =>
    simp only [Option.map_some]
    split_ifs <;> rfl

/-- The event for `perennia:oracle:block_buffer`. -/
def blockEvent (header : Header) (submission : Submission) (currentDiff : UInt64) : Value Float :=
  .object
    [(lit "block_hash", .string
        (hexBytes (crates.headerHash { header with nonce := submission.nonce }).toList)),
      (lit "network_diff", .number (.float currentDiff.toFloat)),
      (lit "nonce", .number (.posInt submission.nonce.toNat)),
      (lit "worker", .string submission.worker)]

def withNonce (rpcBlock : RpcBlock Body) (nonce : UInt64) : RpcBlock Body :=
  { rpcBlock with
    header := rpcBlock.header.map (fun rpcHeader => { rpcHeader with nonce }) }

end Judging

end StratumPool.Submit
