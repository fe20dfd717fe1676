import StratumPool.Lib.FairGame
import StratumPool.Vardiff
import StratumPool.WorkScale
import StratumPool.Server

namespace StratumPool.Fairness

open Lib Lib.FairGame StratumPool.Text StratumPool.Kaspa StratumPool.Submit
  StratumPool.DiffEngine StratumPool.Server StratumPool.WorkScale
open Lib.Binary64 (toRat)
open StratumPool.Vardiff (IsPower)

section Game

variable {Body : Type} (crates : Crates) (float : Float → Str) (network : Uint256 → Bool)

/-- The crates under which the next nonce that is tried has the hash `h`, which
meets the network target or not. -/
def hashing (h : Uint256) : Crates := { crates with checkPow := fun _ _ => (network h, h) }

/-- What happens next may depend on all hashes so far: which connection submits,
what the node sends and when vardiff sets which difficulty. -/
abbrev Policy (Body : Type) := List Uint256 → Action Body

/-- The server in a game in which every nonce is a new one: the hashes it has
drawn so far and its state. -/
structure Game (Body : Type) where
  drawn : List Uint256
  server : State Body

variable (policy : Policy Body)

def next (game : Game Body) (h : Uint256) : Game Body :=
  ⟨game.drawn ++ [h],
    step (hashing crates network h) float game.server (policy game.drawn)⟩

/-- What a step puts into the accounting channel. -/
def sentIn (crates : Crates) (state : State Body) (a : Action Body) : List (Str × Float) :=
  (step crates float state a).validShares.sent.drop state.validShares.sent.length

/-- The difficulty a step brings to its miner. -/
def creditOf (crates : Crates) (state : State Body) (a : Action Body) : ℚ :=
  ((sentIn float crates state a).map fun message => toRat message.2).sum

/-- The difficulty of an accepted share that the channel does not take. -/
def droppedOf (crates : Crates) (state : State Body) (a : Action Body) : ℚ :=
  if state.validShares.accepts then 0
  else (acceptedShare crates float state a).elim 0 (fun message => toRat message.2)

/-- The difficulty of a share that is not credited because it is a block. -/
def forgoneOf (crates : Crates) (state : State Body) (a : Action Body) : ℚ :=
  match verdictOf crates float state a with
  | some (conn, submission, .networkBlock header _) =>
      if (verifyShare crates header submission.nonce conn.currentDiff.toFloat).1 then
        toRat conn.currentDiff.toFloat
      else 0
  | _ => 0

/-- The difficulty at which a step tries a nonce. -/
def triedAt (state : State Body) : Action Body → Option UInt64
  | .submit index params => do
      let conn ← state.connections[index]?
      let submission ← readSubmission float conn.extranonce1 params
      let _ ← state.jobs.activeJobs.lookup submission.jobId
      return conn.currentDiff
  | _ => none

def credit (game : Game Body) (h : Uint256) : ℚ :=
  creditOf float (hashing crates network h) game.server (policy game.drawn)

def dropped (game : Game Body) (h : Uint256) : ℚ :=
  droppedOf float (hashing crates network h) game.server (policy game.drawn)

def forgone (game : Game Body) (h : Uint256) : ℚ :=
  forgoneOf float (hashing crates network h) game.server (policy game.drawn)

/-- One for a step that tries a nonce. -/
def tried (game : Game Body) (_ : Uint256) : ℚ :=
  if (triedAt float game.server (policy game.drawn)).isSome then 1 else 0

/-- No step sets a difficulty that is no power of two. -/
def KeepsPowers : Action Body → Prop
  | .connect _ currentDiff => IsPower currentDiff
  | .retarget _ newDiff => IsPower newDiff
  | _ => True

def AllPowers (state : State Body) : Prop := ∀ conn ∈ state.connections, IsPower conn.currentDiff

end Game

section Round

variable {Body : Type} {float : Float → Str}

/-- The channel takes an accepted share or drops it, and it takes nothing else. -/
theorem credit_add_dropped (crates : Crates) (state : State Body) (a : Action Body) :
    creditOf float crates state a + droppedOf float crates state a =
      (acceptedShare crates float state a).elim 0 (fun message => toRat message.2) := by
  have hsent : sentIn float crates state a =
      if state.validShares.accepts then (acceptedShare crates float state a).toList else [] := by
    rw [sentIn, (step_outcome crates float state a).validShares]
    cases a with
    | submit index params =>
      cases acceptedShare crates float state (.submit index params) <;> simp
    | _ => simp [acceptedShare, verdictOf]
  rw [creditOf, droppedOf, hsent]
  cases state.validShares.accepts with
  | false => simp
  | true => cases acceptedShare crates float state a <;> simp

/-- A step tries no nonce, or it tries one for an active job at the difficulty
of its connection. -/
theorem tried_cases (float : Float → Str) (state : State Body) (a : Action Body) :
    (triedAt float state a = none ∧
        ∀ crates, acceptedShare crates float state a = none ∧
          forgoneOf float crates state a = 0) ∨
      ∃ conn ∈ state.connections, ∃ submission entry,
        triedAt float state a = some conn.currentDiff ∧
        state.jobs.activeJobs.lookup submission.jobId = some entry ∧
        ∀ crates, verdictOf crates float state a = some (conn, submission,
          judge crates state.jobs.activeJobs conn.currentDiff submission) := by
  cases a with
  | submit index params =>
    cases hconn : state.connections[index]? with
    | none => exact .inl (by simp [triedAt, forgoneOf, acceptedShare, verdictOf, hconn])
    | some conn =>
      cases hread : readSubmission float conn.extranonce1 params with
      | none =>
        exact .inl (by simp [triedAt, forgoneOf, acceptedShare, verdictOf, hconn, hread])
      | some submission =>
        cases hjob : state.jobs.activeJobs.lookup submission.jobId with
        | none =>
          exact .inl (by
            simp [triedAt, forgoneOf, acceptedShare, verdictOf, judge, hconn, hread, hjob])
        | some entry =>
          refine .inr ⟨conn, List.mem_of_getElem? hconn, submission, entry, ?_, hjob, ?_⟩
          · simp [triedAt, hconn, hread, hjob]
          · intro crates
            simp [verdictOf, hconn, hread]
  | _ => exact .inl (by simp [triedAt, forgoneOf, acceptedShare, verdictOf])

/-- A hash that meets the pool target comes to its difficulty, as a share that is
credited or dropped, or as a block. -/
theorem credit_add_dropped_add_forgone (crates : Crates) (network : Uint256 → Bool) (state : State Body)
    (a : Action Body) (h : Uint256) :
    creditOf float (hashing crates network h) state a +
          droppedOf float (hashing crates network h) state a +
        forgoneOf float (hashing crates network h) state a =
      (triedAt float state a).elim 0 (fun difficulty =>
        if h ∈ acceptedHashes difficulty.toFloat then toRat difficulty.toFloat else 0) := by
  rw [credit_add_dropped]
  obtain ⟨hnone, hzero⟩ | ⟨conn, -, submission, entry, htried, hjob, hverdict⟩ :=
    tried_cases float state a
  · obtain ⟨hshare, hforgone⟩ := hzero (hashing crates network h)
    rw [hnone, hshare, hforgone, add_zero]
    rfl
  · obtain ⟨header, rpcBlock⟩ := entry
    have hmeets : (verifyShare (hashing crates network h) header submission.nonce
        conn.currentDiff.toFloat).1 = true ↔ h ∈ acceptedHashes conn.currentDiff.toFloat :=
      verifyShare_iff_accepted _ _ _ _
    rw [htried, forgoneOf, acceptedShare, hverdict, judge, hjob]
    simp only [Option.elim_some, ← hmeets]
    cases hverified : verifyShare (hashing crates network h) header submission.nonce
        conn.currentDiff.toFloat with
    | mk isValidShare isNetworkBlock =>
      cases isValidShare <;> cases isNetworkBlock <;> simp [hverified]

theorem sum_round (crates : Crates) (network : Uint256 → Bool) {state : State Body}
    (hpowers : AllPowers state) (a : Action Body) :
    ∑ h, (creditOf float (hashing crates network h) state a +
          droppedOf float (hashing crates network h) state a +
        forgoneOf float (hashing crates network h) state a) =
      ∑ _h : Uint256, if (triedAt float state a).isSome then 1 else 0 := by
  simp only [credit_add_dropped_add_forgone]
  obtain ⟨hnone, -⟩ | ⟨conn, hconn, -, -, htried, -⟩ := tried_cases float state a
  · simp [hnone]
  · obtain ⟨k, hk, hpower⟩ := hpowers conn hconn
    rw [htried, hpower]
    simp only [Option.elim_some, Option.isSome_some, if_true]
    rw [Finset.sum_ite_mem, Finset.univ_inter, Finset.sum_const, Finset.sum_const,
      card_acceptedHashes, Finset.card_univ, Fintype.card_fin, nsmul_eq_mul, nsmul_eq_mul, mul_one,
      (Vardiff.toFloat_reached (Vardiff.reached_two_pow k)).2, Vardiff.toNat_two_pow_lt hk]
    exact_mod_cast poolTarget_pow_two k hk

end Round

section Play

variable {Body : Type} {crates : Crates} {float : Float → Str}

/-- A submission leaves the difficulty of its connection as it is. -/
theorem connections_settle (state : State Body) (index : Nat) (conn : Connection)
    (submission : Submission) :
    ∃ conn', conn'.currentDiff = conn.currentDiff ∧
      (settleSubmission crates state index conn submission).connections =
        state.connections.set index conn' := by
  rw [settleSubmission]
  split
  · exact ⟨{ conn with currentWorkerName := submission.worker }, rfl, rfl⟩
  · exact ⟨{ conn with currentWorkerName := submission.worker }, rfl, rfl⟩
  · exact ⟨{ conn with
      currentWorkerName := submission.worker, shareCount := conn.shareCount + 1 }, rfl, rfl⟩
  · exact ⟨{ conn with currentWorkerName := submission.worker }, rfl, rfl⟩

theorem allPowers_set {state : State Body} (h : AllPowers state) {index : Nat} {conn : Connection}
    (hconn : IsPower conn.currentDiff) :
    ∀ c ∈ state.connections.set index conn, IsPower c.currentDiff := by
  intro c hc
  obtain hold | rfl := List.mem_or_eq_of_mem_set hc
  · exact h c hold
  · exact hconn

theorem allPowers_step {state : State Body} (h : AllPowers state) {a : Action Body}
    (ha : KeepsPowers a) : AllPowers (step crates float state a) := by
  cases a with
  | connect connId currentDiff =>
    intro conn hconn
    obtain hold | hnew := List.mem_append.mp hconn
    · exact h conn hold
    · rw [List.mem_singleton.mp hnew]
      exact ha
  | disconnect index =>
    intro conn hconn
    exact h conn ((List.eraseIdx_sublist _ _).subset hconn)
  | retarget index newDiff =>
    rw [step, retarget]
    cases state.connections[index]? with
    | none => exact h
    | some conn => exact allPowers_set h ha
  | submit index params =>
    rw [step]
    obtain ⟨-, hsubmit⟩ | ⟨conn, submission, hconn, -, hsubmit⟩ :=
      submit_cases crates float state index params
    · rw [hsubmit]
      exact h
    · obtain ⟨conn', hdiff, hset⟩ := connections_settle state index conn submission
      rw [hsubmit, AllPowers, hset]
      exact allPowers_set h (hdiff ▸ h conn (List.mem_of_getElem? hconn))
  | _ => exact h

/-- Over all hashes its nonces can have, a miner is credited as many units of
difficulty as it tries nonces, less those of its blocks and of the shares that
the accounting channel drops. That holds whatever vardiff does with its
difficulty, whenever it submits what, and in whatever state the server is. -/
theorem credit_fair (crates : Crates) (float : Float → Str) (network : Uint256 → Bool)
    {policy : Policy Body} (hpolicy : ∀ drawn, KeepsPowers (policy drawn)) {state : State Body}
    (hstate : AllPowers state) (n : Nat) :
    total (next crates float network policy) (credit crates float network policy) ⟨[], state⟩ n +
          total (next crates float network policy) (dropped crates float network policy)
            ⟨[], state⟩ n +
        total (next crates float network policy) (forgone crates float network policy)
          ⟨[], state⟩ n =
      total (next crates float network policy) (tried float policy) ⟨[], state⟩ n := by
  rw [← total_add, ← total_add]
  refine total_eq (I := fun game => AllPowers game.server) ?_ ?_ hstate n
  · intro game h hpowers
    exact allPowers_step hpowers (hpolicy game.drawn)
  · intro game hpowers
    exact sum_round crates network hpowers (policy game.drawn)

end Play

section Examples

/-- A connection of difficulty one with a job. -/
def oneMiner : State Unit :=
  Runs.run (step tameCrates (fun _ => [])) (boot Unit)
    [.jobs (.newBlock template), .jobs (.advance 0), .connect 1 1]

/-- The difficulty is doubled after the first share that meets it. -/
def doubling : Policy Unit
  | [h] => if h ∈ acceptedHashes 2.0 then .retarget 0 2 else .submit 0 (shareParams (lit "7"))
  | _ => .submit 0 (shareParams (lit "7"))

theorem doubling_credit_fair :
    total (next tameCrates (fun _ => []) (fun h => h.val == 0) doubling)
          (credit tameCrates (fun _ => []) (fun h => h.val == 0) doubling) ⟨[], oneMiner⟩ 3 +
        total (next tameCrates (fun _ => []) (fun h => h.val == 0) doubling)
          (dropped tameCrates (fun _ => []) (fun h => h.val == 0) doubling) ⟨[], oneMiner⟩ 3 +
      total (next tameCrates (fun _ => []) (fun h => h.val == 0) doubling)
        (forgone tameCrates (fun _ => []) (fun h => h.val == 0) doubling) ⟨[], oneMiner⟩ 3 =
      total (next tameCrates (fun _ => []) (fun h => h.val == 0) doubling)
        (tried (fun _ => []) doubling) ⟨[], oneMiner⟩ 3 := by
  apply credit_fair
  · intro drawn
    match drawn with
    | [] => trivial
    | [h] =>
      rw [doubling]
      split
      · exact ⟨1, by decide, rfl⟩
      · trivial
    | _ :: _ :: _ => trivial
  · have hconn : oneMiner.connections = [⟨lowHex 1, 1, 0, []⟩] := rfl
    rw [AllPowers, hconn]
    intro conn hmem
    rw [List.mem_singleton.mp hmem]
    exact ⟨0, by decide, rfl⟩

end Examples

end StratumPool.Fairness
