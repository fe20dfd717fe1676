import StratumPool.Lib.Table
import StratumPool.Json
import StratumPool.Kaspa

namespace StratumPool.Jobs

open Lib StratumPool.Text StratumPool.Json StratumPool.Kaspa

section Conversion

variable (crates : Crates)

def zeroHash : Hash := Vector.replicate 32 0

/-- The consensus header of a template. Where a field does not convert the
source panics, which ends the process. -/
def consensusHeader (rpcHeader : RpcBlockHeader) : Option Header := do
  let hashMerkleRoot ← crates.hashFromStr rpcHeader.hashMerkleRoot
  let acceptedIdMerkleRoot ← crates.hashFromStr rpcHeader.acceptedIdMerkleRoot
  let utxoCommitment ← crates.hashFromStr rpcHeader.utxoCommitment
  let pruningPoint ← crates.hashFromStr rpcHeader.pruningPoint
  let blueWork ← crates.uint192FromHex rpcHeader.blueWork
  let levels ← rpcHeader.parents.mapM (fun level => level.mapM crates.hashFromStr)
  let parentsByLevel ← crates.compressParents levels
  let header : Header :=
    { hash := zeroHash
      version := rpcHeader.version.toUInt16
      parentsByLevel
      hashMerkleRoot
      acceptedIdMerkleRoot
      utxoCommitment
      timestamp := rpcHeader.timestamp.toUInt64
      bits := rpcHeader.bits
      nonce := rpcHeader.nonce
      daaScore := rpcHeader.daaScore
      blueWork
      blueScore := rpcHeader.blueScore
      pruningPoint }
  return { header with hash := crates.headerHash header }

def hexBytes (bytes : List UInt8) : Str := bytes.flatMap (fun b => HexText.padded 2 b.toNat)

def toLeBytes (n : UInt64) : List UInt8 :=
  (List.range 8).map (fun i => (n >>> UInt64.ofNat (8 * i)).toUInt8)

/-- Hash and timestamp of a job in the one string the miners read. -/
def largeJobParam (header : Header) (timestamp : UInt64) : Str :=
  hexBytes (crates.hashOverrideNonceTime header 0 0).toList ++ hexBytes (toLeBytes timestamp)

def notifyPayload (jobId : Str) (header : Header) (timestamp : UInt64) : Str :=
  let notify : Value Float := .object
    [(lit "id", .null), (lit "method", .string (lit "mining.notify")),
      (lit "params", .array
        [.string jobId, .string (largeJobParam crates header timestamp)])]
  render (fun _ => []) notify ++ ['\n']

end Conversion

structure StratumJob where
  jobId : Str
  payload : Str

abbrev JobEntry (Body : Type) := Header × RpcBlock Body

/-- How far one call of `process_new_block` has come. -/
inductive Stage where
  | converted | inserted | stamped | cached
  deriving DecidableEq

structure Call (Body : Type) where
  job : StratumJob
  entry : JobEntry Body
  stage : Stage

/-- How far the collector's sweep has come with its stale keys. -/
structure Sweep where
  staleKeys : List Str
  activeRemoved : Bool

structure JobManager (Body : Type) where
  now : Nat
  jobCounter : UInt64
  activeJobs : Table Str (JobEntry Body)
  jobTimestamps : Table Str Nat
  cachedJob : Option Str
  jobTx : List StratumJob
  calls : List (Call Body)
  sweep : Sweep

def new (Body : Type) : JobManager Body := ⟨0, 1, ∅, ∅, none, [], [], ⟨[], false⟩⟩

inductive Action (Body : Type) where
  | newBlock (block : RpcBlock Body)
  | advance (index : Nat)
  | scan
  | collect
  | wait (millis : Nat)

section Steps

variable {Body : Type} (crates : Crates)

/-- The first lines of `process_new_block`, up to the converted header. -/
def newBlock (manager : JobManager Body) (block : RpcBlock Body) : JobManager Body :=
  match block.header with
  | none => manager
  | some rpcHeader =>
      match consensusHeader crates rpcHeader with
      | none => manager
      | some header =>
          let jobId := lowHex manager.jobCounter
          let payload := notifyPayload crates jobId header rpcHeader.timestamp.toUInt64
          { manager with
            jobCounter := manager.jobCounter + 1
            calls := manager.calls ++ [⟨⟨jobId, payload⟩, (header, block), .converted⟩] }

/-- The next write of a running call: the job, its time, the cache and the
broadcast. -/
def advance (manager : JobManager Body) (index : Nat) : JobManager Body :=
  match manager.calls[index]? with
  | none => manager
  | some call =>
      let job := call.job
      match call.stage with
      | .converted =>
          { manager with
            activeJobs := manager.activeJobs.insert job.jobId call.entry
            calls := manager.calls.set index { call with stage := .inserted } }
      | .inserted =>
          { manager with
            jobTimestamps := manager.jobTimestamps.insert job.jobId manager.now
            calls := manager.calls.set index { call with stage := .stamped } }
      | .stamped =>
          { manager with
            cachedJob := some job.payload
            calls := manager.calls.set index { call with stage := .cached } }
      | .cached =>
          { manager with
            jobTx := manager.jobTx ++ [job]
            calls := manager.calls.eraseIdx index }

/-- The collector lists the keys stamped more than 120 seconds ago. -/
def scan (manager : JobManager Body) : JobManager Body :=
  if manager.sweep.staleKeys.isEmpty then
    let stale := manager.jobTimestamps.entries.filter (fun e => 120 * 1000 < manager.now - e.2)
    { manager with sweep := ⟨stale.map (fun e => e.1), false⟩ }
  else manager

def collect (manager : JobManager Body) : JobManager Body :=
  match manager.sweep.staleKeys with
  | [] => manager
  | key :: rest =>
      if manager.sweep.activeRemoved then
        { manager with
          jobTimestamps := manager.jobTimestamps.erase key
          sweep := ⟨rest, false⟩ }
      else
        { manager with
          activeJobs := manager.activeJobs.erase key
          sweep := ⟨key :: rest, true⟩ }

def step (manager : JobManager Body) : Action Body → JobManager Body
  | .newBlock block => newBlock crates manager block
  | .advance index => advance manager index
  | .scan => scan manager
  | .collect => collect manager
  | .wait millis => { manager with now := manager.now + millis }

end Steps

end StratumPool.Jobs
