import StratumPool.Json
import StratumPool.Lib.Rounding
import StratumPool.Decimals
import StratumPool.Router

namespace StratumPool.Swap

open Lib.Runs Lib.Binary64
open StratumPool.Text StratumPool.Json StratumPool.Provider StratumPool.Router
open StratumPool.Decimals
open StratumPool.Treasury (Balances Rebalance held getTreasuryBalance checkBalance settle increments
  held_hincrbyfloat held_settle triggerFaucet)

/-- How Redis fares with a write: it is refused, or it takes effect and the
answer is lost, or it is answered. -/
inductive Reply where
  | refused (detail : Str)
  | lost (detail : Str)
  | answered

/-- What one request of `/v1/sor/lock` meets: the identifiers it draws, how each
of its calls fares (a read or a pool has a fault or none), and the time from its
lock to its answer. -/
structure Calls where
  lockId : Str
  txHash : Str
  routerPool : Option Str
  depthRead : Option Str
  lockSet : Reply
  pause : Nat
  pause_ge : 1200 ≤ pause
  balancePool : Option Str
  balanceRead : Option Str
  settlePool : Option Str
  pipeline : Reply

/-- What Redis holds of routes and treasury, with its clock. -/
structure State (R : Type) where
  depths : Depths
  now : Nat
  locks : List Lock
  balances : Balances R

/-- `status` and JSON body of an answer. -/
structure Response where
  status : Nat
  body : Value Float

def unprocessable (e : SorError) : Response :=
  ⟨422, .object [(lit "error", .string e.toText)]⟩

/-- `json!` makes `null` of a float that JSON does not have. -/
def jsonNumber (x : Float) : Value Float := if x.isFinite then .number (.float x) else .null

def executed (txHash : Str) (executedRate : Float) : Response :=
  ⟨200, .object
    [(lit "executed_rate", jsonNumber executedRate), (lit "transaction_uuid", .string txHash)]⟩

section Handler

variable {R A : Type} (numbers : Doubles R A) (toUppercase : Str → Str) (state : State R)
  (calls : Calls) (request : SwapRequest)

/-- The router's own state for its `SET`. -/
def view : Router.State := ⟨state.depths, state.now, [], state.locks⟩

/-- The answer and the locks after it. -/
def requestRouteLock : Except SorError (Str × Float) × List Lock :=
  match calls.routerPool, calls.depthRead with
  | some detail, _ => (.error (.poolError detail), state.locks)
  | none, some detail => (.error (.redis detail), state.locks)
  | none, none =>
      match checkRoute toUppercase state.depths request.payAsset request.receiveAsset
          request.amount request.slippageTolerance with
      | .error e => (.error e, state.locks)
      | .ok (pair, impact) =>
          match calls.lockSet with
          | .refused detail => (.error (.redis detail), state.locks)
          | .lost detail =>
              (.error (.redis detail),
                (setLock (view state) ⟨pair, request.amount, impact⟩ calls.lockId).2)
          | .answered => setLock (view state) ⟨pair, request.amount, impact⟩ calls.lockId

def rebalance : Rebalance A :=
  ⟨request.wallet, request.payAsset, request.receiveAsset, numbers.ofDouble request.amount⟩

/-- The answer and the balances after it. -/
def executeRebalance (balances : Balances R) : Except SorError Str × Balances R :=
  match calls.balancePool, calls.balanceRead with
  | some detail, _ => (.error (.poolError detail), balances)
  | none, some detail => (.error (.redis detail), balances)
  | none, none =>
      match checkBalance numbers.toNumbers balances (rebalance numbers request) with
      | .error e => (.error e, balances)
      | .ok () =>
          match calls.settlePool, calls.pipeline with
          | some detail, _ => (.error (.poolError detail), balances)
          | none, .refused detail => (.error (.redis detail), balances)
          | none, .lost detail =>
              (.error (.redis detail),
                settle numbers.toNumbers balances (rebalance numbers request))
          | none, .answered =>
              (.ok calls.txHash, settle numbers.toNumbers balances (rebalance numbers request))

def sorLockHandler : Response × State R :=
  match requestRouteLock toUppercase state calls request with
  | (.error e, locks) => (unprocessable e, { state with locks })
  | (.ok (_, executedRate), locks) =>
      let later := state.now + calls.pause
      match executeRebalance numbers calls request state.balances with
      | (.error e, balances) =>
          (unprocessable e, { state with now := later, locks, balances })
      | (.ok txHash, balances) =>
          (executed txHash executedRate, { state with now := later, locks, balances })

end Handler

section Outcomes

variable {R A : Type} (numbers : Doubles R A) (toUppercase : Str → Str) (state : State R)
  (calls : Calls) (request : SwapRequest)

def swapPair : Str := pairOf toUppercase request.payAsset request.receiveAsset

def swapDepth : Float := depthOf state.depths (swapPair toUppercase request)

def swapImpact : Float := request.amount / swapDepth toUppercase state request

/-- The comparisons of the router let the request through, and its connection
and its read of the depth are there. -/
structure Passes : Prop where
  pool : calls.routerPool = none
  read : calls.depthRead = none
  depth : ¬ swapDepth toUppercase state request < request.amount
  slippage : ¬ request.slippageTolerance < swapImpact toUppercase state request

/-- It gets its lock. -/
structure Locks : Prop where
  passes : Passes toUppercase state calls request
  set : calls.lockSet = .answered
  fresh : lockExists (view state) calls.lockId = false

/-- The provider takes it up, and reads the balance. -/
structure Reads : Prop where
  locks : Locks toUppercase state calls request
  pool : calls.balancePool = none
  read : calls.balanceRead = none

/-- The balance that is read is not less than the amount. -/
def Covered : Prop :=
  numbers.less
    (getTreasuryBalance numbers.toNumbers state.balances request.wallet request.payAsset)
    (numbers.ofDouble request.amount) = false

/-- The MULTI/EXEC takes effect. -/
structure Settles : Prop where
  reads : Reads toUppercase state calls request
  covered : Covered numbers state request
  pool : calls.settlePool = none
  pipeline : ∀ detail, calls.pipeline ≠ .refused detail

/-- Its `SET` takes effect, whether the answer arrives or not. -/
structure Takes : Prop where
  passes : Passes toUppercase state calls request
  set : ∀ detail, calls.lockSet ≠ .refused detail
  fresh : lockExists (view state) calls.lockId = false

/-- The lock that a request leaves behind. -/
def ownLock : Lock :=
  ⟨calls.lockId, state.now + ttlMillis, swapPair toUppercase request, request.amount⟩

theorem checkRoute_eq :
    checkRoute toUppercase state.depths request.payAsset request.receiveAsset request.amount
        request.slippageTolerance =
      if swapDepth toUppercase state request < request.amount then
        .error (.insufficientLiquidity (swapPair toUppercase request))
      else if request.slippageTolerance < swapImpact toUppercase state request then
        .error .slippageViolation
      else .ok (swapPair toUppercase request, swapImpact toUppercase state request) := rfl

/-- What the lock request comes to: granted, or an error, with its lock set or
not. -/
structure Routed (routed : Except SorError (Str × Float) × List Lock) : Prop where
  granted : Locks toUppercase state calls request →
    routed.1 = .ok (calls.lockId, swapImpact toUppercase state request)
  refused : ¬ Locks toUppercase state calls request → ∃ e, routed.1 = .error e
  taken : Takes toUppercase state calls request →
    routed.2 = state.locks ++ [ownLock toUppercase state calls request]
  free : ¬ Takes toUppercase state calls request → routed.2 = state.locks

variable {numbers toUppercase state calls request}

/-- An error before the `SET`, or one that says it was refused. -/
theorem routed_error (h : ¬ Takes toUppercase state calls request) (e : SorError) :
    Routed toUppercase state calls request (.error e, state.locks) where
  granted hlocks := by
    refine absurd ⟨hlocks.passes, ?_, hlocks.fresh⟩ h
    intro detail hset
    rw [hlocks.set] at hset
    cases hset
  refused _ := ⟨e, rfl⟩
  taken ht := absurd ht h
  free _ := rfl

variable (numbers toUppercase state calls request)

theorem routed_request :
    Routed toUppercase state calls request (requestRouteLock toUppercase state calls request) := by
  rw [requestRouteLock]
  cases hpool : calls.routerPool with
  | some detail =>
    refine routed_error (fun h => ?_) _
    rw [h.passes.pool] at hpool
    cases hpool
  | none =>
    cases hread : calls.depthRead with
    | some detail =>
      refine routed_error (fun h => ?_) _
      rw [h.passes.read] at hread
      cases hread
    | none =>
      simp only [checkRoute_eq]
      split_ifs with hdepth hslippage
      · exact routed_error (fun h => h.passes.depth hdepth) _
      · exact routed_error (fun h => h.passes.slippage hslippage) _
      · have hpasses : Passes toUppercase state calls request := ⟨hpool, hread, hdepth, hslippage⟩
        cases hset : calls.lockSet with
        | refused detail => exact routed_error (fun h => h.set detail hset) _
        | lost detail =>
          cases hfresh : lockExists (view state) calls.lockId with
          | true =>
            simp only [setLock_of_exists hfresh]
            exact routed_error (fun h => by rw [h.fresh] at hfresh; cases hfresh) _
          | false =>
            simp only [setLock_of_free hfresh]
            have hset' : ∀ detail, calls.lockSet ≠ .refused detail := by simp [hset]
            refine ⟨fun h => ?_, fun _ => ⟨_, rfl⟩, fun _ => rfl, fun h => ?_⟩
            · rw [h.set] at hset
              cases hset
            · exact absurd ⟨hpasses, hset', hfresh⟩ h
        | answered =>
          cases hfresh : lockExists (view state) calls.lockId with
          | true =>
            simp only [setLock, hfresh, if_true]
            exact routed_error (fun h => by rw [h.fresh] at hfresh; cases hfresh) _
          | false =>
            simp only [setLock_of_free hfresh]
            have hset' : ∀ detail, calls.lockSet ≠ .refused detail := by simp [hset]
            refine ⟨fun _ => rfl, fun h => ?_, fun _ => rfl, fun h => ?_⟩
            · exact absurd ⟨hpasses, hset, hfresh⟩ h
            · exact absurd ⟨hpasses, hset', hfresh⟩ h

/-- What the settlement comes to. -/
structure Rebalanced (rebalanced : Except SorError Str × Balances R) : Prop where
  settled : Settles numbers toUppercase state calls request →
    rebalanced.2 = settle numbers.toNumbers state.balances (rebalance numbers request)
  rejected : ¬ Settles numbers toUppercase state calls request →
    (∃ e, rebalanced.1 = .error e) ∧ rebalanced.2 = state.balances
  answered : (∀ detail, calls.pipeline ≠ .lost detail) →
    Settles numbers toUppercase state calls request → rebalanced.1 = .ok calls.txHash

variable {numbers toUppercase state calls request}

theorem rebalanced_error (h : ¬ Settles numbers toUppercase state calls request) (e : SorError) :
    Rebalanced numbers toUppercase state calls request (.error e, state.balances) where
  settled hs := absurd hs h
  rejected _ := ⟨⟨e, rfl⟩, rfl⟩
  answered _ hs := absurd hs h

theorem checkBalance_of_covered (h : Covered numbers state request) :
    checkBalance numbers.toNumbers state.balances (rebalance numbers request) = .ok () :=
  if_neg (Bool.eq_false_iff.mp h)

theorem checkBalance_of_not_covered (h : ¬ Covered numbers state request) :
    checkBalance numbers.toNumbers state.balances (rebalance numbers request) =
      .error (.insufficientLiquidity request.payAsset) :=
  if_pos (Bool.of_not_eq_false h)

theorem rebalanced_request (h : Locks toUppercase state calls request) :
    Rebalanced numbers toUppercase state calls request
      (executeRebalance numbers calls request state.balances) := by
  rw [executeRebalance]
  cases hpool : calls.balancePool with
  | some detail =>
    refine rebalanced_error (fun hs => ?_) _
    rw [hs.reads.pool] at hpool
    cases hpool
  | none =>
    cases hread : calls.balanceRead with
    | some detail =>
      refine rebalanced_error (fun hs => ?_) _
      rw [hs.reads.read] at hread
      cases hread
    | none =>
      by_cases hcovered : Covered numbers state request
      · simp only [checkBalance_of_covered hcovered]
        cases hsettle : calls.settlePool with
        | some detail =>
          refine rebalanced_error (fun hs => ?_) _
          rw [hs.pool] at hsettle
          cases hsettle
        | none =>
          have hsettles (hpipe : ∀ detail, calls.pipeline ≠ .refused detail) :
              Settles numbers toUppercase state calls request :=
            ⟨⟨h, hpool, hread⟩, hcovered, hsettle, hpipe⟩
          cases hpipe : calls.pipeline with
          | refused detail => exact rebalanced_error (fun hs => hs.pipeline detail hpipe) _
          | lost detail =>
            refine ⟨fun _ => rfl, fun hs => absurd (hsettles (by simp [hpipe])) hs, fun hl => ?_⟩
            exact absurd hpipe (hl detail)
          | answered =>
            exact ⟨fun _ => rfl, fun hs => absurd (hsettles (by simp [hpipe])) hs, fun _ _ => rfl⟩
      · simp only [checkBalance_of_not_covered hcovered]
        exact rebalanced_error (fun hs => hcovered hs.covered) _

/-- The answer to a request that has its lock. -/
def answer (executedRate : Float) : Except SorError Str → Response
  | .error e => unprocessable e
  | .ok txHash => executed txHash executedRate

theorem handler_of_locks (h : Locks toUppercase state calls request) :
    sorLockHandler numbers toUppercase state calls request =
      (answer (swapImpact toUppercase state request)
          (executeRebalance numbers calls request state.balances).1,
        { state with
          now := state.now + calls.pause
          locks := (requestRouteLock toUppercase state calls request).2
          balances := (executeRebalance numbers calls request state.balances).2 }) := by
  have hgranted := (routed_request toUppercase state calls request).granted h
  rw [sorLockHandler]
  generalize requestRouteLock toUppercase state calls request = routed at hgranted ⊢
  generalize executeRebalance numbers calls request state.balances = rebalanced
  obtain ⟨granted, locks⟩ := routed
  obtain ⟨result, balances⟩ := rebalanced
  subst hgranted
  cases result with
  | error e => rfl
  | ok txHash => rfl

theorem handler_of_not_locks (h : ¬ Locks toUppercase state calls request) :
    ∃ e, sorLockHandler numbers toUppercase state calls request =
      (unprocessable e,
        { state with locks := (requestRouteLock toUppercase state calls request).2 }) := by
  obtain ⟨e, he⟩ := (routed_request toUppercase state calls request).refused h
  rw [sorLockHandler]
  generalize requestRouteLock toUppercase state calls request = routed at he ⊢
  obtain ⟨refused, locks⟩ := routed
  subst he
  exact ⟨e, rfl⟩

theorem handler_locks :
    (sorLockHandler numbers toUppercase state calls request).2.locks =
      (requestRouteLock toUppercase state calls request).2 := by
  by_cases h : Locks toUppercase state calls request
  · rw [handler_of_locks h]
  · obtain ⟨e, he⟩ := handler_of_not_locks h
    rw [he]

theorem balances_of_settles (h : Settles numbers toUppercase state calls request) :
    (sorLockHandler numbers toUppercase state calls request).2.balances =
      settle numbers.toNumbers state.balances (rebalance numbers request) := by
  rw [handler_of_locks h.reads.locks]
  exact (rebalanced_request h.reads.locks).settled h

theorem balances_of_not_settles (h : ¬ Settles numbers toUppercase state calls request) :
    (sorLockHandler numbers toUppercase state calls request).2.balances = state.balances := by
  by_cases hlocks : Locks toUppercase state calls request
  · rw [handler_of_locks hlocks]
    exact ((rebalanced_request hlocks).rejected h).2
  · obtain ⟨e, he⟩ := handler_of_not_locks hlocks
    rw [he]

/-- What a call does to the locks is two steps of the router among many calls. -/
theorem router_run (hpool : calls.routerPool = none) (hread : calls.depthRead = none)
    (hset : ∀ detail, calls.lockSet ≠ .refused detail) :
    (run (Router.step toUppercase) (view state) [.check request, .lock 0 calls.lockId]).locks =
      (sorLockHandler numbers toUppercase state calls request).2.locks := by
  have hrouted := routed_request toUppercase state calls request
  have hdepths : (view state).depths = state.depths := rfl
  rw [handler_locks, run_cons, run_cons, run_nil, Router.step, hdepths, checkRoute_eq]
  by_cases hdepth : swapDepth toUppercase state request < request.amount
  · rw [if_pos hdepth, hrouted.free fun h => h.passes.depth hdepth]
    rfl
  · by_cases hslippage : request.slippageTolerance < swapImpact toUppercase state request
    · rw [if_neg hdepth, if_pos hslippage, hrouted.free fun h => h.passes.slippage hslippage]
      rfl
    · rw [if_neg hdepth, if_neg hslippage]
      cases hfresh : lockExists (view state) calls.lockId with
      | true =>
        rw [hrouted.free fun h => by simp [h.fresh] at hfresh]
        exact setLock_of_exists hfresh _
      | false =>
        rw [hrouted.taken ⟨⟨hpool, hread, hdepth, hslippage⟩, hset, hfresh⟩]
        exact congrArg Prod.snd (setLock_of_free hfresh _)

/-- And what it does to the balances is two steps of the treasury. -/
theorem treasury_run (hr : Reads toUppercase state calls request) (hpool : calls.settlePool = none)
    (hpipe : ∀ detail, calls.pipeline ≠ .refused detail) :
    (run (Treasury.step numbers.toNumbers) ⟨state.balances, []⟩
      [.check (rebalance numbers request), .settle 0]).balances =
      (sorLockHandler numbers toUppercase state calls request).2.balances := by
  rw [run_cons, run_cons, run_nil, Treasury.step]
  by_cases hc : Covered numbers state request
  · rw [balances_of_settles ⟨hr, hc, hpool, hpipe⟩]
    simp only [checkBalance_of_covered hc]
    rfl
  · rw [balances_of_not_settles fun h => hc h.covered]
    simp only [checkBalance_of_not_covered hc]
    rfl

end Outcomes

section Overdraft

variable (bits : ℕ) (sent : Float → ℚ) (toUppercase : Str → Str) (state : State Decimal)
  (calls : Calls) (request : SwapRequest)

/-- What Redis has in the field of an asset, nothing being zero. -/
def stored (balances : Balances Decimal) (wallet asset : Str) : Decimal :=
  (balances.lookup (wallet, asset)).getD 0

def NonNegative (balances : Balances Decimal) : Prop :=
  ∀ wallet asset, 0 ≤ stored balances wallet asset

/-- The field of the asset paid bears the debit and that of the asset received
the credit, which a negative amount makes a debit. Where they are one field, it
bears the credit after the debit. -/
def Affords : Prop :=
  let paid := stored state.balances request.wallet request.payAsset
  let received := stored state.balances request.wallet request.receiveAsset
  if request.payAsset = request.receiveAsset then
    (paid.incrByFloat bits (sent (-request.amount))).Bears bits (sent request.amount)
  else paid.Bears bits (sent (-request.amount)) ∧ received.Bears bits (sent request.amount)

variable {bits sent toUppercase state calls request}

theorem stored_settle (call : Rebalance Float) (balances : Balances Decimal) (wallet asset : Str) :
    stored (settle (redis bits sent).toNumbers balances call) wallet asset =
      (increments (redis bits sent).toNumbers call wallet asset).foldl
        (fun field amount => field.incrByFloat bits (sent amount)) (stored balances wallet asset) :=
  held_settle (redis bits sent).toNumbers balances call wallet asset

theorem settled_nonNegative (h0 : NonNegative state.balances)
    (h : Settles (redis bits sent) toUppercase state calls request) :
    NonNegative (sorLockHandler (redis bits sent) toUppercase state calls request).2.balances ↔
      Affords bits sent state request := by
  rw [balances_of_settles h, Affords]
  by_cases hsame : request.payAsset = request.receiveAsset
  · rw [if_pos hsame, ← Decimal.incrByFloat_nonneg_iff]
    constructor
    · intro hn
      have hfield := hn request.wallet request.payAsset
      rw [stored_settle] at hfield
      simpa [increments, rebalance, hsame, redis] using hfield
    · intro hn wallet asset
      rw [stored_settle]
      by_cases hfield : wallet = request.wallet ∧ asset = request.payAsset
      · obtain ⟨rfl, rfl⟩ := hfield
        simpa [increments, rebalance, hsame, redis] using hn
      · have hnone : increments (redis bits sent).toNumbers (rebalance (redis bits sent) request)
            wallet asset = [] := by
          simp [increments, rebalance, ← hsame, hfield]
        rw [hnone]
        exact h0 wallet asset
  · rw [if_neg hsame, ← Decimal.incrByFloat_nonneg_iff, ← Decimal.incrByFloat_nonneg_iff]
    constructor
    · intro hn
      have hpaid := hn request.wallet request.payAsset
      have hreceived := hn request.wallet request.receiveAsset
      rw [stored_settle] at hpaid hreceived
      constructor
      · simpa [increments, rebalance, hsame, redis] using hpaid
      · simpa [increments, rebalance, Ne.symm hsame, redis] using hreceived
    · rintro ⟨hpaid, hreceived⟩ wallet asset
      rw [stored_settle]
      by_cases hwallet : wallet = request.wallet
      · subst hwallet
        by_cases hpay : asset = request.payAsset
        · subst hpay
          simpa [increments, rebalance, hsame, redis] using hpaid
        · by_cases hreceive : asset = request.receiveAsset
          · subst hreceive
            simpa [increments, rebalance, hpay, redis] using hreceived
          · simpa [increments, rebalance, hpay, hreceive] using h0 request.wallet asset
      · simpa [increments, rebalance, hwallet] using h0 wallet asset

variable (bits sent toUppercase state calls request)

end Overdraft

section Limits

variable {R : Type} (toUppercase : Str → Str) (state : State R) (calls : Calls)
  (request : SwapRequest)

/-- What a lock promises of the depth it was granted against. -/
structure WithinLimits (depth amount maxSlippage impact : Float) : Prop where
  depth_pos : 0.0 < depth
  amount_pos : 0.0 < amount
  amount_le : amount ≤ depth
  impact_eq : impact = amount / depth
  impact_pos : 0.0 < impact
  impact_le : impact ≤ maxSlippage

/-- A positive amount, against a depth that is a number and not so large that
the impact rounds to zero. -/
structure Measurable : Prop where
  amount_pos : 0.0 < request.amount
  depth_finite : (swapDepth toUppercase state request).isFinite = true
  no_underflow : toRat (swapDepth toUppercase state request) < 2 ^ 1075 * toRat request.amount

variable {toUppercase state calls request}

theorem withinLimits_iff (h : Passes toUppercase state calls request) :
    WithinLimits (swapDepth toUppercase state request) request.amount request.slippageTolerance
        (swapImpact toUppercase state request) ↔
      Measurable toUppercase state request := by
  constructor
  · intro hw
    obtain ⟨hfinite, hlarge⟩ :=
      (zero_lt_div_iff request.amount_finite hw.amount_pos hw.depth_pos).mp hw.impact_pos
    exact ⟨hw.amount_pos, hfinite, hlarge⟩
  · intro hm
    have hle : toRat request.amount ≤ toRat (swapDepth toUppercase state request) :=
      (not_lt_iff hm.depth_finite request.amount_finite).mp h.depth
    have hzero : (0.0 : Float).isFinite = true := by decide +kernel
    have hdepth : 0.0 < swapDepth toUppercase state request :=
      (lt_iff hzero hm.depth_finite).mpr
        (((lt_iff hzero request.amount_finite).mp hm.amount_pos).trans_le hle)
    have hpos : 0.0 < swapImpact toUppercase state request :=
      (zero_lt_div_iff request.amount_finite hm.amount_pos hdepth).mpr
        ⟨hm.depth_finite, hm.no_underflow⟩
    exact ⟨hdepth, hm.amount_pos, (le_iff request.amount_finite hm.depth_finite).mpr hle, rfl, hpos,
      (le_of_not_lt request.slippage_finite hpos h.slippage).2⟩

variable (toUppercase state calls request)

/-- Every lock that is granted is within its limits if and only if a request
that gets one asks for a positive amount and its impact can be told. -/
theorem granted_within_iff :
    (∀ lockId impact,
        (requestRouteLock toUppercase state calls request).1 = .ok (lockId, impact) →
          WithinLimits (swapDepth toUppercase state request) request.amount
            request.slippageTolerance impact) ↔
      (Locks toUppercase state calls request → Measurable toUppercase state request) := by
  have hrouted := routed_request toUppercase state calls request
  by_cases h : Locks toUppercase state calls request
  · rw [hrouted.granted h]
    simp only [Except.ok.injEq, Prod.mk.injEq, and_imp, forall_eq', forall_apply_eq_imp_iff]
    rw [withinLimits_iff h.passes]
    exact ⟨fun hm _ => hm, fun hm => hm h⟩
  · obtain ⟨e, he⟩ := hrouted.refused h
    rw [he]
    simp [h]

end Limits

section Traces

variable {R A : Type} (numbers : Doubles R A) (toUppercase : Str → Str) (state : State R)
  (calls : Calls) (request : SwapRequest)

def liveAt (locks : List Lock) (now : Nat) : List Lock := locks.filter (Lock.live now)

/-- Nothing but the lock of the request itself is left, and that until it
expires. -/
structure OnlyLockLeft (after : State R) : Prop where
  balances : after.balances = state.balances
  free : ¬ Takes toUppercase state calls request →
    ∀ now, liveAt after.locks now = liveAt state.locks now
  held : Takes toUppercase state calls request → ∀ now ≤ state.now + ttlMillis,
    liveAt after.locks now = liveAt state.locks now ++ [ownLock toUppercase state calls request]
  expired : ∀ now, state.now + ttlMillis < now →
    liveAt after.locks now = liveAt state.locks now

variable {numbers toUppercase state calls request}

theorem not_settles_of_failed
    (hfail : ∃ e, (sorLockHandler numbers toUppercase state calls request).1 = unprocessable e)
    (hlost : ∀ detail, calls.pipeline ≠ .lost detail) :
    ¬ Settles numbers toUppercase state calls request := by
  intro h
  obtain ⟨e, he⟩ := hfail
  rw [handler_of_locks h.reads.locks] at he
  rw [(rebalanced_request h.reads.locks).answered hlost h] at he
  have hstatus : (200 : Nat) = 422 := congrArg Response.status he
  cases hstatus

theorem liveAt_own (now : Nat) :
    liveAt [ownLock toUppercase state calls request] now =
      if now ≤ state.now + ttlMillis then [ownLock toUppercase state calls request] else [] := by
  by_cases h : now ≤ state.now + ttlMillis <;> simp [liveAt, Lock.live, ownLock, h]

variable (numbers toUppercase state calls request)

/-- A swap that fails leaves the balances as they were and of new locks only its
own, unless it was settled and the answer lost. -/
theorem failed_swap_leaves_lock
    (hfail : ∃ e, (sorLockHandler numbers toUppercase state calls request).1 = unprocessable e)
    (hlost : ∀ detail, calls.pipeline ≠ .lost detail) :
    OnlyLockLeft toUppercase state calls request
      (sorLockHandler numbers toUppercase state calls request).2 := by
  have hrouted := routed_request toUppercase state calls request
  have hfree (h : ¬ Takes toUppercase state calls request) :
      (sorLockHandler numbers toUppercase state calls request).2.locks = state.locks :=
    handler_locks.trans (hrouted.free h)
  have htaken (h : Takes toUppercase state calls request) :
      (sorLockHandler numbers toUppercase state calls request).2.locks =
        state.locks ++ [ownLock toUppercase state calls request] :=
    handler_locks.trans (hrouted.taken h)
  refine ⟨balances_of_not_settles (not_settles_of_failed hfail hlost), ?_, ?_, ?_⟩
  · intro h now
    rw [hfree h]
  · intro h now hnow
    rw [htaken h, liveAt, List.filter_append, ← liveAt, ← liveAt, liveAt_own, if_pos hnow]
  · intro now hnow
    by_cases h : Takes toUppercase state calls request
    · rw [htaken h, liveAt, List.filter_append, ← liveAt, ← liveAt, liveAt_own,
        if_neg (not_le.mpr hnow), List.append_nil]
    · rw [hfree h]

end Traces

section Spellings

variable {R A : Type} (numbers : Doubles R A) (toUppercase : Str → Str) (state : State R)
  (calls : Calls) {request request' : SwapRequest}

/-- Two requests that differ in the spelling of their assets, not in the pair
they lock. -/
structure SameRoute (request request' : SwapRequest) : Prop where
  wallet : request.wallet = request'.wallet
  payAsset : toUppercase request.payAsset = toUppercase request'.payAsset
  receiveAsset : toUppercase request.receiveAsset = toUppercase request'.receiveAsset
  amount : request.amount = request'.amount
  slippageTolerance : request.slippageTolerance = request'.slippageTolerance

/-- The same answer and the same number in every field. -/
def SameOutcome (outcome outcome' : Response × State R) : Prop :=
  outcome.1 = outcome'.1 ∧
    ∀ wallet asset, held numbers.toSums outcome.2.balances wallet asset =
      held numbers.toSums outcome'.2.balances wallet asset

/-- The provider has no connection for its settlement, or Redis refuses it. -/
def Halted : Prop := calls.settlePool ≠ none ∨ ∃ detail, calls.pipeline = .refused detail

/-- What a settlement adds to the field of an asset, one after the other. -/
def incrementsOf (request : SwapRequest) (asset : Str) : List A :=
  increments numbers.toNumbers (rebalance numbers request) request.wallet asset

/-- What the field of an asset comes to by some increments. -/
def summed (request : SwapRequest) (asset : Str) (added : List A) : R :=
  added.foldl numbers.add (held numbers.toSums state.balances request.wallet asset)

/-- A field that the two do not increment alike comes to the same number by the
increments of either. -/
def SameMove (request request' : SwapRequest) : Prop :=
  ∀ asset, incrementsOf numbers request asset ≠ incrementsOf numbers request' asset →
    summed numbers state request asset (incrementsOf numbers request asset) =
      summed numbers state request asset (incrementsOf numbers request' asset)

/-- The balances that the two spellings name do the same for the request. -/
def Agree (request request' : SwapRequest) : Prop :=
  ¬ Covered numbers state request ∧ request.payAsset = request'.payAsset ∨
    Covered numbers state request ∧ Covered numbers state request' ∧
      (Halted calls ∨ SameMove numbers state request request')

variable {numbers toUppercase state calls}

theorem SameRoute.symm (h : SameRoute toUppercase request request') :
    SameRoute toUppercase request' request :=
  ⟨h.wallet.symm, h.payAsset.symm, h.receiveAsset.symm, h.amount.symm, h.slippageTolerance.symm⟩

theorem SameRoute.pair (h : SameRoute toUppercase request request') :
    swapPair toUppercase request = swapPair toUppercase request' := by
  rw [swapPair, pairOf, h.payAsset, h.receiveAsset]
  rfl

theorem SameRoute.depth (h : SameRoute toUppercase request request') :
    swapDepth toUppercase state request = swapDepth toUppercase state request' := by
  rw [swapDepth, h.pair]
  rfl

theorem SameRoute.impact (h : SameRoute toUppercase request request') :
    swapImpact toUppercase state request = swapImpact toUppercase state request' := by
  rw [swapImpact, h.amount, h.depth]
  rfl

theorem SameRoute.route (h : SameRoute toUppercase request request') :
    requestRouteLock toUppercase state calls request =
      requestRouteLock toUppercase state calls request' := by
  have hcheck : checkRoute toUppercase state.depths request.payAsset request.receiveAsset
        request.amount request.slippageTolerance =
      checkRoute toUppercase state.depths request'.payAsset request'.receiveAsset request'.amount
        request'.slippageTolerance := by
    rw [checkRoute_eq, checkRoute_eq, h.pair, h.depth, h.impact, h.amount, h.slippageTolerance]
  rw [requestRouteLock, requestRouteLock, hcheck, h.amount]

theorem SameRoute.locks (h : SameRoute toUppercase request request')
    (hl : Locks toUppercase state calls request) : Locks toUppercase state calls request' := by
  refine ⟨⟨hl.passes.pool, hl.passes.read, ?_, ?_⟩, hl.set, hl.fresh⟩
  · rw [← h.depth, ← h.amount]
    exact hl.passes.depth
  · rw [← h.impact, ← h.slippageTolerance]
    exact hl.passes.slippage

/-- Until the provider has read a balance the spelling makes no difference. -/
theorem handler_congr (h : SameRoute toUppercase request request')
    (hr : ¬ Reads toUppercase state calls request) :
    sorLockHandler numbers toUppercase state calls request =
      sorLockHandler numbers toUppercase state calls request' := by
  by_cases hlocks : Locks toUppercase state calls request
  · have hexec : executeRebalance numbers calls request state.balances =
        executeRebalance numbers calls request' state.balances := by
      rw [executeRebalance, executeRebalance]
      cases hpool : calls.balancePool with
      | some detail => rfl
      | none =>
        cases hread : calls.balanceRead with
        | some detail => rfl
        | none => exact absurd ⟨hlocks, hpool, hread⟩ hr
    rw [handler_of_locks hlocks, handler_of_locks (h.locks hlocks), hexec, h.route, h.impact]
  · obtain ⟨e, he⟩ := (routed_request toUppercase state calls request).refused hlocks
    rw [sorLockHandler, sorLockHandler, ← h.route]
    generalize requestRouteLock toUppercase state calls request = routed at he ⊢
    obtain ⟨refused, locks⟩ := routed
    subst he
    rfl

/-- Two settlements come to the same balances only where they move the same. -/
theorem settle_agree_iff (hw : request.wallet = request'.wallet) :
    (∀ wallet asset,
        held numbers.toSums (settle numbers.toNumbers state.balances (rebalance numbers request))
            wallet asset =
          held numbers.toSums (settle numbers.toNumbers state.balances (rebalance numbers request'))
            wallet asset) ↔
      SameMove numbers state request request' := by
  simp only [held_settle]
  constructor
  · intro h asset _
    have hasset := h request.wallet asset
    rw [summed, summed, incrementsOf, incrementsOf, ← hw]
    exact hasset
  · intro h wallet asset
    by_cases hwallet : wallet = request.wallet
    · subst hwallet
      by_cases hsame : incrementsOf numbers request asset = incrementsOf numbers request' asset
      · rw [incrementsOf, incrementsOf, ← hw] at hsame
        rw [hsame]
      · have hasset := h asset hsame
        rw [summed, summed, incrementsOf, incrementsOf, ← hw] at hasset
        exact hasset
    · have hwallet' : wallet ≠ request'.wallet := fun he => hwallet (he.trans hw.symm)
      simp [increments, rebalance, hwallet, hwallet']

theorem unprocessable_inj {e e' : SorError} :
    unprocessable e = unprocessable e' ↔ e.toText = e'.toText := by
  simp [unprocessable]

/-- The provider's later errors read otherwise than that of its check. -/
theorem insufficient_toText_ne (asset detail : Str) :
    (SorError.insufficientLiquidity asset).toText ≠ (SorError.poolError detail).toText ∧
      (SorError.insufficientLiquidity asset).toText ≠ (SorError.redis detail).toText := by
  constructor <;> simp [SorError.toText, lit]

theorem execute_of_not_covered (hr : Reads toUppercase state calls request)
    (hc : ¬ Covered numbers state request) :
    executeRebalance numbers calls request state.balances =
      (.error (.insufficientLiquidity request.payAsset), state.balances) := by
  simp only [executeRebalance, hr.pool, hr.read, checkBalance_of_not_covered hc]

theorem answer_covered_ne (executedRate : Float) (asset : Str)
    (hr : Reads toUppercase state calls request) (hc : Covered numbers state request) :
    answer executedRate (.error (.insufficientLiquidity asset)) ≠
      answer executedRate (executeRebalance numbers calls request state.balances).1 := by
  simp only [executeRebalance, hr.pool, hr.read, checkBalance_of_covered hc]
  cases calls.settlePool with
  | some detail => exact fun h => (insufficient_toText_ne asset detail).1 (unprocessable_inj.mp h)
  | none =>
    cases calls.pipeline with
    | refused detail =>
      exact fun h => (insufficient_toText_ne asset detail).2 (unprocessable_inj.mp h)
    | lost detail =>
      exact fun h => (insufficient_toText_ne asset detail).2 (unprocessable_inj.mp h)
    | answered =>
      intro h
      have hstatus : (422 : Nat) = 200 := congrArg Response.status h
      cases hstatus

theorem covered_agree_iff (h : SameRoute toUppercase request request')
    (hr : Reads toUppercase state calls request) (hc : Covered numbers state request)
    (hc' : Covered numbers state request') (executedRate : Float) :
    (answer executedRate (executeRebalance numbers calls request state.balances).1 =
        answer executedRate (executeRebalance numbers calls request' state.balances).1 ∧
      ∀ wallet asset,
        held numbers.toSums (executeRebalance numbers calls request state.balances).2 wallet asset =
          held numbers.toSums (executeRebalance numbers calls request' state.balances).2
            wallet asset) ↔
      Halted calls ∨ SameMove numbers state request request' := by
  simp only [executeRebalance, hr.pool, hr.read, checkBalance_of_covered hc,
    checkBalance_of_covered hc']
  cases hpool : calls.settlePool with
  | some detail =>
    have hhalted : Halted calls := .inl (by simp [hpool])
    exact iff_of_true ⟨rfl, fun _ _ => rfl⟩ (.inl hhalted)
  | none =>
    have hmove : _ ↔ SameMove numbers state request request' := settle_agree_iff h.wallet
    cases hpipe : calls.pipeline with
    | refused detail =>
      have hhalted : Halted calls := .inr ⟨detail, hpipe⟩
      exact iff_of_true ⟨rfl, fun _ _ => rfl⟩ (.inl hhalted)
    | lost detail =>
      have hhalted : ¬ Halted calls := by simp [Halted, hpool, hpipe]
      rw [or_iff_right hhalted, ← hmove]
      apply and_iff_right rfl
    | answered =>
      have hhalted : ¬ Halted calls := by simp [Halted, hpool, hpipe]
      rw [or_iff_right hhalted, ← hmove]
      apply and_iff_right rfl

theorem SameRoute.reads (h : SameRoute toUppercase request request')
    (hr : Reads toUppercase state calls request) : Reads toUppercase state calls request' :=
  ⟨h.locks hr.locks, hr.pool, hr.read⟩

/-- Under one spelling of the asset paid one balance covers both. -/
theorem SameRoute.covered (h : SameRoute toUppercase request request')
    (hpay : request.payAsset = request'.payAsset) (hc : Covered numbers state request) :
    Covered numbers state request' := by
  rw [Covered, ← h.amount, ← h.wallet, ← hpay]
  exact hc

variable (numbers toUppercase state calls)

theorem outcome_agree_iff (h : SameRoute toUppercase request request') :
    SameOutcome numbers (sorLockHandler numbers toUppercase state calls request)
        (sorLockHandler numbers toUppercase state calls request') ↔
      (Reads toUppercase state calls request → Agree numbers state calls request request') := by
  by_cases hr : Reads toUppercase state calls request
  · have hr' := h.reads hr
    simp only [handler_of_locks hr.locks, handler_of_locks hr'.locks, SameOutcome, ← h.impact,
      hr, true_implies]
    by_cases hc : Covered numbers state request
    · by_cases hc' : Covered numbers state request'
      · rw [covered_agree_iff h hr hc hc']
        simp [Agree, hc, hc']
      · have hne := answer_covered_ne (swapImpact toUppercase state request) request'.payAsset hr hc
        simp only [execute_of_not_covered hr' hc']
        simp [Agree, hc, hc', hne.symm]
    · by_cases hc' : Covered numbers state request'
      · have hne := answer_covered_ne (swapImpact toUppercase state request) request.payAsset hr' hc'
        have hpay : request.payAsset ≠ request'.payAsset := fun hp =>
          hc (h.symm.covered hp.symm hc')
        simp only [execute_of_not_covered hr hc]
        simp [Agree, hc, hne, hpay]
      · simp only [execute_of_not_covered hr hc, execute_of_not_covered hr' hc', answer,
          unprocessable_inj]
        simp [Agree, hc, SorError.toText]
  · rw [handler_congr h hr]
    exact iff_of_true ⟨rfl, fun _ _ => rfl⟩ (fun hreads => absurd hreads hr)

end Spellings

section Examples

/-- Redis on x86-64, with the driver as it is for whole numbers, which it writes
by their value. -/
def wholes : Doubles Decimal Float := redis 64 toRat

/-- No depth is published and no lock is held. -/
def idle (balances : Balances Decimal) : State Decimal := ⟨fun _ => none, 0, [], balances⟩

def smooth : Calls :=
  ⟨lit "a", lit "mock_tx_0", none, none, .answered, 1200, le_rfl, none, none, none, .answered⟩

def funded : Balances Decimal := triggerFaucet wholes.toNumbers ∅ (lit "KAS") 10.0

theorem one_finite : (1.0 : Float).isFinite = true := by decide +kernel

def swapOf (payAsset receiveAsset : Str) (amount : Float) (h : amount.isFinite = true) :
    SwapRequest :=
  ⟨lit "admin", payAsset, receiveAsset, amount, 1.0, h, one_finite⟩

def tenKas (receiveAsset : Str) : SwapRequest :=
  swapOf (lit "KAS") receiveAsset 10.0 (by decide +kernel)

def refund : SwapRequest := swapOf (lit "KAS") (lit "USDC") (-5.0) (by decide +kernel)

def nothing : SwapRequest := swapOf (lit "KAS") (lit "KSPR") 0.0 (by decide +kernel)

theorem toRat_ten : toRat 10.0 = 10 := toRat_of_units (n := 10) (by decide +kernel)

theorem locks_tenKas (balances : Balances Decimal) (receiveAsset : Str) :
    Locks upper (idle balances) smooth (tenKas receiveAsset) where
  passes := by
    have hdepth : ¬ (500000.0 : Float) < 10.0 := by decide +kernel
    have hslippage : ¬ (1.0 : Float) < 10.0 / 500000.0 := by decide +kernel
    exact ⟨rfl, rfl, hdepth, hslippage⟩
  set := rfl
  fresh := rfl

theorem locks_refund (balances : Balances Decimal) : Locks upper (idle balances) smooth refund where
  passes := by
    have hdepth : ¬ (500000.0 : Float) < -5.0 := by decide +kernel
    have hslippage : ¬ (1.0 : Float) < -5.0 / 500000.0 := by decide +kernel
    exact ⟨rfl, rfl, hdepth, hslippage⟩
  set := rfl
  fresh := rfl

theorem settles_smooth {balances : Balances Decimal} {request : SwapRequest}
    (h : Locks upper (idle balances) smooth request) (hc : Covered wholes (idle balances) request) :
    Settles wholes upper (idle balances) smooth request :=
  ⟨⟨h, rfl, rfl⟩, hc, rfl, by simp [smooth]⟩

theorem stored_funded (wallet asset : Str) :
    stored funded wallet asset =
      if wallet = lit "admin" ∧ asset = lit "KAS" then 10 * 10 ^ 17 else 0 := by
  have hten : Decimal.incrByFloat 64 0 10 = 10 * 10 ^ 17 :=
    Decimal.incrByFloat_whole (n := 0) (k := 10) (by decide) (by decide) (by decide)
  have hheld := held_hincrbyfloat wholes.toSums ∅ (lit "admin") (lit "KAS") wallet asset 10.0
  rw [stored]
  refine hheld.trans ?_
  split_ifs
  · rw [← hten, ← toRat_ten]
    rfl
  · rfl

theorem funded_nonNegative : NonNegative funded := by
  intro wallet asset
  rw [stored_funded]
  split_ifs <;> decide

theorem covered_tenKas (receiveAsset : Str) : Covered wholes (idle funded) (tenKas receiveAsset) := by
  have hcovered : wholes.less
      (getTreasuryBalance wholes.toNumbers funded (lit "admin") (lit "KAS")) 10.0 = false := by
    decide +kernel
  exact hcovered

theorem uncovered_tenKas (receiveAsset : Str) :
    ¬ Covered wholes (idle ∅) (tenKas receiveAsset) := by
  have hshort : ¬ wholes.less
      (getTreasuryBalance wholes.toNumbers ∅ (lit "admin") (lit "KAS")) 10.0 = false := by
    decide +kernel
  exact hshort

/-- A lock for nothing on a pair of depth zero divides zero by zero. -/
theorem empty_depth_granted :
    ¬ ∀ lockId impact,
      (requestRouteLock upper { idle ∅ with depths := fun _ => some 0.0 } smooth nothing).1 =
          .ok (lockId, impact) →
        WithinLimits (swapDepth upper { idle ∅ with depths := fun _ => some 0.0 } nothing)
          nothing.amount nothing.slippageTolerance impact := by
  intro h
  have hdepth : ¬ (0.0 : Float) < 0.0 := by decide +kernel
  have hslippage : ¬ (1.0 : Float) < 0.0 / 0.0 := by decide +kernel
  have hlocks : Locks upper { idle ∅ with depths := fun _ => some 0.0 } smooth nothing :=
    ⟨⟨rfl, rfl, hdepth, hslippage⟩, rfl, rfl⟩
  exact hdepth (h _ _ ((routed_request _ _ _ _).granted hlocks)).depth_pos

/-- The balances and the live locks are those of before. -/
def Untraced (before after : State Decimal) : Prop :=
  after.balances = before.balances ∧
    liveAt after.locks after.now = liveAt before.locks after.now

theorem handler_uncovered_tenKas :
    sorLockHandler wholes upper (idle ∅) smooth (tenKas (lit "USDC")) =
      (unprocessable (.insufficientLiquidity (lit "KAS")),
        { idle ∅ with
          now := 1200
          locks := [ownLock upper (idle ∅) smooth (tenKas (lit "USDC"))] }) := by
  have hlocks := locks_tenKas ∅ (lit "USDC")
  have hreads : Reads upper (idle ∅) smooth (tenKas (lit "USDC")) := ⟨hlocks, rfl, rfl⟩
  have htaken := (routed_request upper (idle ∅) smooth (tenKas (lit "USDC"))).taken
    ⟨hlocks.passes, by simp [smooth], rfl⟩
  rw [handler_of_locks hlocks, htaken]
  rw [execute_of_not_covered hreads (uncovered_tenKas (lit "USDC"))]
  rfl

/-- The treasury has not the coins, but the route stays locked. -/
theorem rejected_swap_keeps_lock :
    ¬ ((∃ e, (sorLockHandler wholes upper (idle ∅) smooth (tenKas (lit "USDC"))).1 = unprocessable e) →
      Untraced (idle ∅) (sorLockHandler wholes upper (idle ∅) smooth (tenKas (lit "USDC"))).2) := by
  rw [handler_uncovered_tenKas]
  intro h
  have hlocks := (h ⟨_, rfl⟩).2
  have hlive : (1200 : Nat) ≤ (idle ∅).now + ttlMillis := by decide
  simp only [liveAt_own, if_pos hlive] at hlocks
  cases hlocks

theorem rejected_swap_leaves_lock :
    OnlyLockLeft upper (idle ∅) smooth (tenKas (lit "USDC"))
      (sorLockHandler wholes upper (idle ∅) smooth (tenKas (lit "USDC"))).2 := by
  refine failed_swap_leaves_lock wholes upper (idle ∅) smooth (tenKas (lit "USDC")) ?_ (by simp [smooth])
  rw [handler_uncovered_tenKas]
  exact ⟨_, rfl⟩

theorem sameRoute_tenKas {receiveAsset receiveAsset' : Str}
    (h : upper receiveAsset = upper receiveAsset') :
    SameRoute upper (tenKas receiveAsset) (tenKas receiveAsset') :=
  ⟨rfl, rfl, h, rfl, rfl⟩

theorem agree_tenKas (receiveAsset receiveAsset' : Str) :
    Agree wholes (idle ∅) smooth (tenKas receiveAsset) (tenKas receiveAsset') :=
  .inl ⟨uncovered_tenKas receiveAsset, rfl⟩

end Examples

end StratumPool.Swap
