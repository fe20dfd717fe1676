import StratumPool.Lib.Tasks
import StratumPool.Swap

namespace StratumPool.SwapService

open Lib Lib.Runs Lib.Binary64 Lib.Tasks
open StratumPool.Text StratumPool.Provider
open StratumPool.Router (SwapRequest Lock checkRoute pairOf setLock setLock_of_free lockExists
  ttlMillis live_of_later)
open StratumPool.Swap (Reply Calls Response unprocessable executed view rebalance sorLockHandler
  requestRouteLock executeRebalance)
open StratumPool.Decimals
open StratumPool.Treasury (getTreasuryBalance triggerFaucet checkBalance settle balance_settle
  balance_hincrbyfloat unrounded_toSums)

/-- How far a request of `/v1/sor/lock` has come: past the constraints of the
router, asleep with its lock, past the check of its balance, answered, or dropped
with its connection. -/
inductive Phase where
  | routed (pair : Str) (impact : Float)
  | locked (impact : Float)
  | covered (impact : Float)
  | replied (response : Response)
  | dropped

structure Grant where
  lockId : Str
  lockedAt : Nat

/-- One call of `sor_lock_handler`. `granted` and `settledAt` are the history of
its two writes. -/
structure Call where
  request : SwapRequest
  phase : Phase
  granted : Option Grant
  settledAt : Option Nat

/-- A request with the faults of its first connection and of its read. -/
structure Arrival where
  request : SwapRequest
  routerPool : Option Str
  depthRead : Option Str

inductive Move where
  | lock (lockId : Str) (lockSet : Reply)
  | read (balancePool balanceRead : Option Str)
  | settle (txHash : Str) (settlePool : Option Str) (pipeline : Reply)
  | drop

inductive Event (A : Type) where
  | publish (pair : Str) (depth : Option Float)
  | faucet (asset : Str) (amount : A)
  | wait (millis : Nat)

section Steps

variable {R A : Type} (numbers : Doubles R A) (toUppercase : Str → Str)

def failed (call : Call) (e : SorError) : Call := { call with phase := .replied (unprocessable e) }

def arrive (world : Swap.State R) (arrival : Arrival) : Call :=
  let request := arrival.request
  let phase : Phase :=
    match arrival.routerPool, arrival.depthRead with
    | some detail, _ => .replied (unprocessable (.poolError detail))
    | none, some detail => .replied (unprocessable (.redis detail))
    | none, none =>
        match checkRoute toUppercase world.depths request.payAsset request.receiveAsset
            request.amount request.slippageTolerance with
        | .error e => .replied (unprocessable e)
        | .ok (pair, impact) => .routed pair impact
  ⟨request, phase, none, none⟩

/-- The `SET` of a call that is past the constraints. -/
def lockCall (world : Swap.State R) (call : Call) (pair : Str) (impact : Float) (lockId : Str)
    (lockSet : Reply) : Call × Swap.State R :=
  let (result, locks) := setLock (view world) ⟨pair, call.request.amount, impact⟩ lockId
  match lockSet, result with
  | .refused detail, _ => (failed call (.redis detail), world)
  | .lost detail, _ => (failed call (.redis detail), { world with locks })
  | .answered, .error e => (failed call e, { world with locks })
  | .answered, .ok _ =>
      ({ call with phase := .locked impact, granted := some ⟨lockId, world.now⟩ },
        { world with locks })

/-- The check of the balance, 1200 ms after the lock at the earliest. -/
def readCall (world : Swap.State R) (call : Call) (impact : Float)
    (balancePool balanceRead : Option Str) : Call :=
  if call.granted.any (fun grant => grant.lockedAt + 1200 ≤ world.now) then
    match balancePool, balanceRead with
    | some detail, _ => failed call (.poolError detail)
    | none, some detail => failed call (.redis detail)
    | none, none =>
        match checkBalance numbers.toNumbers world.balances (rebalance numbers call.request) with
        | .error e => failed call e
        | .ok () => { call with phase := .covered impact }
  else call

/-- The MULTI/EXEC and the answer. -/
def settleCall (world : Swap.State R) (call : Call) (impact : Float) (txHash : Str)
    (settlePool : Option Str) (pipeline : Reply) : Call × Swap.State R :=
  let after :=
    { world with
      balances := settle numbers.toNumbers world.balances (rebalance numbers call.request) }
  let settled := { call with settledAt := some world.now }
  match settlePool, pipeline with
  | some detail, _ => (failed call (.poolError detail), world)
  | none, .refused detail => (failed call (.redis detail), world)
  | none, .lost detail => (failed settled (.redis detail), after)
  | none, .answered => ({ settled with phase := .replied (executed txHash impact) }, after)

/-- What a call does next, in the one phase where it does it. -/
def advance (world : Swap.State R) (call : Call) : Move → Call × Swap.State R
  | .lock lockId lockSet =>
      match call.phase with
      | .routed pair impact => lockCall world call pair impact lockId lockSet
      | _ => (call, world)
  | .read balancePool balanceRead =>
      match call.phase with
      | .locked impact => (readCall numbers world call impact balancePool balanceRead, world)
      | _ => (call, world)
  | .settle txHash settlePool pipeline =>
      match call.phase with
      | .covered impact => settleCall numbers world call impact txHash settlePool pipeline
      | _ => (call, world)
  | .drop =>
      match call.phase with
      | .replied _ | .dropped => (call, world)
      | _ => ({ call with phase := .dropped }, world)

def happen (world : Swap.State R) : Event A → Swap.State R
  | .publish pair depth => { world with depths := Function.update world.depths pair depth }
  | .faucet asset amount =>
      { world with balances := triggerFaucet numbers.toNumbers world.balances asset amount }
  | .wait millis => { world with now := world.now + millis }

/-- The calls of `sor_lock_handler` beside each other. -/
def service : System (Swap.State R) Call Arrival Move (Event A) :=
  ⟨arrive toUppercase, advance numbers, happen numbers⟩

end Steps

section Moves

variable {R A : Type} (numbers : Doubles R A)

/-- Neither answered nor dropped. -/
def Phase.running : Phase → Bool
  | .replied _ | .dropped => false
  | _ => true

def newLock (world : Swap.State R) (call : Call) (pair lockId : Str) : Lock :=
  ⟨lockId, world.now + ttlMillis, pair, call.request.amount⟩

/-- Everything that a move can do. -/
inductive Advanced (world : Swap.State R) (call : Call) : Call × Swap.State R → Prop where
  | idle : Advanced world call (call, world)
  | dropped (running : call.phase.running = true) :
      Advanced world call ({ call with phase := .dropped }, world)
  | failed (e : SorError) (running : call.phase.running = true) :
      Advanced world call (failed call e, world)
  /-- The lock is set, the call does not hear of it. -/
  | lost (e : SorError) (pair lockId : Str) (impact : Float)
      (phase : call.phase = .routed pair impact)
      (fresh : lockExists (view world) lockId = false) :
      Advanced world call
        (failed call e, { world with locks := world.locks ++ [newLock world call pair lockId] })
  | granted (pair lockId : Str) (impact : Float) (phase : call.phase = .routed pair impact)
      (fresh : lockExists (view world) lockId = false) :
      Advanced world call
        ({ call with phase := .locked impact, granted := some ⟨lockId, world.now⟩ },
          { world with locks := world.locks ++ [newLock world call pair lockId] })
  | covered (impact : Float) (grant : Grant) (phase : call.phase = .locked impact)
      (own : call.granted = some grant) (awake : grant.lockedAt + 1200 ≤ world.now) :
      Advanced world call ({ call with phase := .covered impact }, world)
  | settled (impact : Float) (response : Response) (phase : call.phase = .covered impact)
      (answer : (∃ txHash, response = executed txHash impact) ∨
        ∃ detail, response = unprocessable (.redis detail)) :
      Advanced world call
        ({ call with phase := .replied response, settledAt := some world.now },
          { world with
            balances := settle numbers.toNumbers world.balances (rebalance numbers call.request) })

variable {numbers} {world : Swap.State R} {call : Call}

theorem advanced_lock {pair : Str} {impact : Float} (h : call.phase = .routed pair impact)
    (lockId : Str) (lockSet : Reply) :
    Advanced numbers world call (lockCall world call pair impact lockId lockSet) := by
  have hrunning : call.phase.running = true := by rw [h]; rfl
  rw [lockCall]
  cases hfresh : lockExists (view world) lockId with
  | true =>
    have hset : setLock (view world) ⟨pair, call.request.amount, impact⟩ lockId =
        (.error (.broadcastFailure (lit "Route lock collision. Try again.")), world.locks) := by
      rw [setLock, if_pos hfresh]
      rfl
    rw [hset]
    cases lockSet <;> exact .failed _ hrunning
  | false =>
    rw [setLock_of_free hfresh]
    cases lockSet with
    | refused detail => exact .failed _ hrunning
    | lost detail => exact .lost _ pair lockId impact h hfresh
    | answered => exact .granted pair lockId impact h hfresh

theorem advanced_read {impact : Float} (h : call.phase = .locked impact)
    (balancePool balanceRead : Option Str) :
    Advanced numbers world call
      (readCall numbers world call impact balancePool balanceRead, world) := by
  have hrunning : call.phase.running = true := by rw [h]; rfl
  by_cases hawake : call.granted.any (fun grant => grant.lockedAt + 1200 ≤ world.now) = true
  · simp only [readCall, if_pos hawake]
    obtain ⟨grant, hown, hawake⟩ := (Option.any_eq_true _ _).mp hawake
    cases balancePool with
    | some detail => exact .failed _ hrunning
    | none =>
      cases balanceRead with
      | some detail => exact .failed _ hrunning
      | none =>
        cases hcheck :
          checkBalance numbers.toNumbers world.balances (rebalance numbers call.request) with
        | error e => simpa only [hcheck] using .failed e hrunning
        | ok _ => simpa only [hcheck] using .covered impact grant h hown (of_decide_eq_true hawake)
  · simp only [readCall, if_neg hawake]
    exact .idle

theorem advanced_settle {impact : Float} (h : call.phase = .covered impact) (txHash : Str)
    (settlePool : Option Str) (pipeline : Reply) :
    Advanced numbers world call
      (settleCall numbers world call impact txHash settlePool pipeline) := by
  have hrunning : call.phase.running = true := by rw [h]; rfl
  cases settlePool with
  | some detail => exact .failed _ hrunning
  | none =>
    cases pipeline with
    | refused detail => exact .failed _ hrunning
    | lost detail => exact .settled impact _ h (.inr ⟨detail, rfl⟩)
    | answered => exact .settled impact _ h (.inl ⟨txHash, rfl⟩)

variable (numbers world call) in
theorem advanced (what : Move) : Advanced numbers world call (advance numbers world call what) := by
  obtain ⟨request, phase, granted, settledAt⟩ := call
  cases what with
  | lock lockId lockSet =>
    cases phase with
    | routed pair impact => exact advanced_lock rfl lockId lockSet
    | _ => exact .idle
  | read balancePool balanceRead =>
    cases phase with
    | locked impact => exact advanced_read rfl balancePool balanceRead
    | _ => exact .idle
  | settle txHash settlePool pipeline =>
    cases phase with
    | covered impact => exact advanced_settle rfl txHash settlePool pipeline
    | _ => exact .idle
  | drop =>
    cases phase with
    | replied response => exact .idle
    | dropped => exact .idle
    | _ => exact .dropped rfl

end Moves

section Promises

variable {R A : Type} {numbers : Doubles R A} (toUppercase : Str → Str)

/-- The impact of a request on some depth, within the limits of the router. -/
def Priced (request : SwapRequest) (impact : Float) : Prop :=
  ∃ depth : Float, impact = request.amount / depth ∧ ¬ depth < request.amount ∧
    ¬ request.slippageTolerance < impact

def lockOf (call : Call) (grant : Grant) : Lock :=
  ⟨grant.lockId, grant.lockedAt + ttlMillis,
    pairOf toUppercase call.request.payAsset call.request.receiveAsset, call.request.amount⟩

/-- What an answer says of the writes of its call. -/
structure Honest (world : Swap.State R) (call : Call) : Prop where
  confirmed : ∀ response, call.phase = .replied response → response.status = 200 →
    call.settledAt.isSome ∧
      ∃ txHash impact, Priced call.request impact ∧ response = executed txHash impact
  rejected : ∀ response, call.phase = .replied response → response.status ≠ 200 →
    call.settledAt = none ∨ ∃ detail, response = unprocessable (.redis detail)
  settled : ∀ settledAt ∈ call.settledAt, settledAt ≤ world.now ∧
    (∃ response, call.phase = .replied response) ∧
      ∃ grant ∈ call.granted, grant.lockedAt + 1200 ≤ settledAt
  held : ∀ grant ∈ call.granted, lockOf toUppercase call grant ∈ world.locks

def Phase.impact : Phase → Option Float
  | .routed _ impact | .locked impact | .covered impact => some impact
  | _ => none

structure Kept (world : Swap.State R) (call : Call) : Prop
    extends Honest toUppercase world call where
  unsettled : call.phase.running = true → call.settledAt = none
  priced : ∀ impact ∈ call.phase.impact, Priced call.request impact
  routed : ∀ pair impact, call.phase = .routed pair impact →
    pair = pairOf toUppercase call.request.payAsset call.request.receiveAsset
  awake : ∀ impact, call.phase = .covered impact →
    ∃ grant ∈ call.granted, grant.lockedAt + 1200 ≤ world.now

variable {toUppercase} {world : Swap.State R} {call : Call}

/-- Time and other calls break no promise. -/
theorem Kept.later (h : Kept toUppercase world call) {after : Swap.State R}
    (hnow : world.now ≤ after.now) (hlocks : world.locks ⊆ after.locks) :
    Kept toUppercase after call where
  confirmed := h.confirmed
  rejected := h.rejected
  settled t ht := ⟨(h.settled t ht).1.trans hnow, (h.settled t ht).2⟩
  held grant hg := hlocks (h.held grant hg)
  unsettled := h.unsettled
  priced := h.priced
  routed := h.routed
  awake impact hi := by
    obtain ⟨grant, hg, hle⟩ := h.awake impact hi
    exact ⟨grant, hg, hle.trans hnow⟩

theorem Advanced.frame {moved : Call × Swap.State R} (h : Advanced numbers world call moved) :
    moved.2.now = world.now ∧ world.locks ⊆ moved.2.locks := by
  cases h with
  | lost | granted => exact ⟨rfl, List.subset_append_left _ _⟩
  | _ => exact ⟨rfl, List.Subset.refl _⟩

/-- A call that ends with an error and has settled nothing. -/
theorem Kept.failed (h : Kept toUppercase world call) (hrunning : call.phase.running = true)
    (e : SorError) : Kept toUppercase world (failed call e) where
  confirmed response hr hs := by
    cases hr
    cases hs
  rejected _ _ _ := .inl (h.unsettled hrunning)
  settled t ht := by
    rw [SwapService.failed, h.unsettled hrunning] at ht
    cases ht
  held := h.held
  unsettled hr := by cases hr
  priced impact hi := by cases hi
  routed _ _ hr := by cases hr
  awake _ hc := by cases hc

theorem kept_refused (request : SwapRequest) (e : SorError) :
    Kept toUppercase world ⟨request, .replied (unprocessable e), none, none⟩ where
  confirmed response hr hs := by
    cases hr
    cases hs
  rejected _ _ _ := .inl rfl
  settled t ht := by cases ht
  held grant hg := by cases hg
  unsettled _ := rfl
  priced impact hi := by cases hi
  routed _ _ hr := by cases hr
  awake _ hc := by cases hc

theorem kept_arrive (world : Swap.State R) (arrival : Arrival) :
    Kept toUppercase world (arrive toUppercase world arrival) := by
  obtain ⟨request, routerPool, depthRead⟩ := arrival
  cases routerPool with
  | some detail => exact kept_refused request _
  | none =>
    cases depthRead with
    | some detail => exact kept_refused request _
    | none =>
      simp only [arrive, Swap.checkRoute_eq]
      split_ifs with hdepth hslippage
      · exact kept_refused request _
      · exact kept_refused request _
      · exact
          { confirmed := fun _ hr => by cases hr
            rejected := fun _ hr => by cases hr
            settled := fun _ ht => by cases ht
            held := fun _ hg => by cases hg
            unsettled := fun _ => rfl
            priced := fun impact hi => by
              cases hi
              exact ⟨_, rfl, hdepth, hslippage⟩
            routed := fun _ _ hr => by
              cases hr
              rfl
            awake := fun _ hc => by cases hc }

theorem kept_advance (h : Kept toUppercase world call) {moved : Call × Swap.State R}
    (hm : Advanced numbers world call moved) : Kept toUppercase moved.2 moved.1 := by
  have hlater := h.later hm.frame.1.ge hm.frame.2
  cases hm with
  | idle => exact h
  | dropped hrunning =>
    exact
      { confirmed := fun _ hr => by cases hr
        rejected := fun _ hr => by cases hr
        settled := fun t ht => by
          simp only [h.unsettled hrunning] at ht
          cases ht
        held := h.held
        unsettled := fun hr => by cases hr
        priced := fun _ hi => by cases hi
        routed := fun _ _ hr => by cases hr
        awake := fun _ hc => by cases hc }
  | failed e hrunning => exact h.failed hrunning e
  | lost e pair lockId impact hphase hfresh =>
    exact hlater.failed (by rw [hphase]; rfl) e
  | granted pair lockId impact hphase hfresh =>
    have hunsettled := h.unsettled (by rw [hphase]; rfl)
    exact
      { confirmed := fun _ hr => by cases hr
        rejected := fun _ hr => by cases hr
        settled := fun t ht => by
          simp only [hunsettled] at ht
          cases ht
        held := fun grant hg => by
          cases hg
          rw [lockOf, ← h.routed pair impact hphase]
          exact List.mem_append_right _ List.mem_cons_self
        unsettled := fun _ => hunsettled
        priced := fun i hi => by
          cases hi
          exact h.priced impact (by rw [hphase]; rfl)
        routed := fun _ _ hr => by cases hr
        awake := fun _ hc => by cases hc }
  | covered impact grant hphase hown hawake =>
    have hunsettled := h.unsettled (by rw [hphase]; rfl)
    exact
      { confirmed := fun _ hr => by cases hr
        rejected := fun _ hr => by cases hr
        settled := fun t ht => by
          simp only [hunsettled] at ht
          cases ht
        held := h.held
        unsettled := fun _ => hunsettled
        priced := fun i hi => by
          cases hi
          exact h.priced impact (by rw [hphase]; rfl)
        routed := fun _ _ hr => by cases hr
        awake := fun _ hc => by
          cases hc
          exact ⟨grant, hown, hawake⟩ }
  | settled impact response hphase hanswer =>
    have hpriced := h.priced impact (by rw [hphase]; rfl)
    exact
      { confirmed := fun r hr hs => by
          cases hr
          obtain ⟨txHash, rfl⟩ | ⟨detail, rfl⟩ := hanswer
          · exact ⟨rfl, txHash, impact, hpriced, rfl⟩
          · cases hs
        rejected := fun r hr hs => by
          cases hr
          obtain ⟨txHash, rfl⟩ | ⟨detail, rfl⟩ := hanswer
          · exact absurd rfl hs
          · exact .inr ⟨detail, rfl⟩
        settled := fun t ht => by
          cases ht
          exact ⟨le_rfl, ⟨response, rfl⟩, h.awake impact hphase⟩
        held := h.held
        unsettled := fun hr => by cases hr
        priced := fun _ hi => by cases hi
        routed := fun _ _ hr => by cases hr
        awake := fun _ hc => by cases hc }

variable (numbers toUppercase) in
theorem kept_relies : Relies (service numbers toUppercase) (Kept toUppercase) where
  start world arrival := kept_arrive world arrival
  move world call what h := kept_advance h (advanced numbers world call what)
  other world call mover what h _ :=
    h.later (advanced numbers world mover what).frame.1.ge
      (advanced numbers world mover what).frame.2
  env world call event h := by
    cases event with
    | wait millis => exact h.later (Nat.le_add_right _ _) (List.Subset.refl _)
    | _ => exact h.later le_rfl (List.Subset.refl _)

end Promises

section Books

variable (toUppercase : Str → Str) (wallet asset : Str)

/-- What a call has moved to the balance of an asset in a wallet. -/
def moved (call : Call) : ℚ :=
  if call.settledAt.isSome then
    (if wallet = call.request.wallet ∧ asset = call.request.receiveAsset
      then toRat call.request.amount else 0) -
    (if wallet = call.request.wallet ∧ asset = call.request.payAsset
      then toRat call.request.amount else 0)
  else 0

def fauceted : Event ℚ → ℚ
  | .faucet asset' amount => if wallet = lit "admin" ∧ asset = asset' then amount else 0
  | _ => 0

theorem moved_of_unsettled {call : Call} (h : call.settledAt = none) :
    moved wallet asset call = 0 := by
  rw [moved, h]
  rfl

theorem Advanced.balance {toUppercase : Str → Str} {world : Swap.State ℚ} {call : Call}
    {after : Call × Swap.State ℚ} (hm : Advanced rational world call after)
    (h : Kept toUppercase world call) :
    getTreasuryBalance rational.toNumbers after.2.balances wallet asset + moved wallet asset call =
      getTreasuryBalance rational.toNumbers world.balances wallet asset +
        moved wallet asset after.1 := by
  cases hm with
  | settled impact response hphase hanswer =>
    have hunsettled := h.unsettled (by rw [hphase]; rfl)
    rw [moved_of_unsettled wallet asset hunsettled, add_zero, rational_toNumbers, balance_settle,
      sub_add_eq_add_sub, add_sub_assoc]
    rfl
  | _ => rfl

theorem accounts : Accounts (service rational toUppercase) (Kept toUppercase)
    (fun world => getTreasuryBalance rational.toNumbers world.balances wallet asset)
    (moved wallet asset) (fauceted wallet asset) where
  start world arrival := rfl
  move world call what h := (advanced rational world call what).balance wallet asset h
  env world event := by
    cases event with
    | faucet asset' amount =>
      simp only [service, happen, triggerFaucet, rational_toNumbers, unrounded_toSums,
        balance_hincrbyfloat, fauceted]
    | _ => simp only [service, happen, fauceted, add_zero]

/-- However the calls of the service overlap, every balance is what it was, the
faucet's share and the amounts of the calls that settled, each counted once; an
answer with status 200 is given for a settlement of its own, no earlier than
1200 ms after its lock. -/
theorem answers_match_balances (world : Swap.State ℚ) (as : List (Action Arrival Move (Event ℚ))) :
    let after := run (step (service rational toUppercase)) ⟨world, []⟩ as
    Each (Honest toUppercase) after ∧ ∀ wallet asset,
      getTreasuryBalance rational.toNumbers after.world.balances wallet asset =
        getTreasuryBalance rational.toNumbers world.balances wallet asset +
          (as.map (gainOf (fauceted wallet asset))).sum +
          (after.tasks.map (moved wallet asset)).sum := by
  have hkept := (kept_relies rational toUppercase).always world as
  refine ⟨fun call hc => (hkept.last call hc).toHonest, ?_⟩
  intro wallet asset
  exact (accounts toUppercase wallet asset).run (kept_relies rational toUppercase) world as

end Books

section Exclusion

variable {R A : Type} (numbers : Doubles R A) (toUppercase : Str → Str)

/-- Two calls do not hold live locks under one id. -/
def Exclusive (world : Swap.State R) (call other : Call) : Prop :=
  ∀ grant ∈ call.granted, ∀ grant' ∈ other.granted,
    (lockOf toUppercase call grant).live world.now = true →
      (lockOf toUppercase other grant').live world.now = true → grant.lockId ≠ grant'.lockId

/-- An id that is free is not that of a live lock. -/
theorem ne_of_fresh {world : Swap.State R} {lockId : Str}
    (h : lockExists (view world) lockId = false) {lock : Lock} (hmem : lock ∈ world.locks)
    (hlive : lock.live world.now = true) : lockId ≠ lock.lockId := by
  rintro rfl
  have hexists : lockExists (view world) lock.lockId = true :=
    List.any_eq_true.mpr ⟨lock, hmem, by simpa [view] using hlive⟩
  rw [h] at hexists
  cases hexists

theorem Advanced.granted_eq {world : Swap.State R} {call : Call} {moved : Call × Swap.State R}
    (h : Advanced numbers world call moved) :
    moved.1.granted = call.granted ∧ moved.1.request = call.request ∨
      ∃ lockId, moved.1.granted = some ⟨lockId, world.now⟩ ∧
        lockExists (view world) lockId = false := by
  cases h with
  | granted pair lockId impact hphase hfresh => exact .inr ⟨lockId, rfl, hfresh⟩
  | _ => exact .inl ⟨rfl, rfl⟩

theorem exclusive :
    KeepsApart (service numbers toUppercase) (Kept toUppercase) (Exclusive toUppercase) where
  symm world call other h grant hg grant' hg' hl hl' := (h grant' hg' grant hg hl' hl).symm
  start world arrival other _ grant hg := by cases hg
  move world call what other _ hother h := by
    have hm : Advanced numbers world call ((service numbers toUppercase).move world call what) :=
      advanced numbers world call what
    intro grant hg grant' hg' hl hl'
    rw [hm.frame.1] at hl hl'
    obtain ⟨hgranted, hrequest⟩ | ⟨lockId, hgranted, hfresh⟩ := hm.granted_eq
    · rw [hgranted] at hg
      rw [lockOf, hrequest] at hl
      exact h grant hg grant' hg' hl hl'
    · rw [hgranted] at hg
      cases hg
      exact ne_of_fresh hfresh (hother.held grant' hg') hl'
  other world call other mover what _ h := by
    intro grant hg grant' hg' hl hl'
    have hnow : ((service numbers toUppercase).move world mover what).2.now = world.now :=
      (advanced numbers world mover what).frame.1
    rw [hnow] at hl hl'
    exact h grant hg grant' hg' hl hl'
  env world call other event h := by
    cases event with
    | wait millis =>
      intro grant hg grant' hg' hl hl'
      exact h grant hg grant' hg' (live_of_later hl) (live_of_later hl')
    | _ => exact h

/-- In every run no two calls hold live locks under the same id. -/
theorem locks_exclusive (world : Swap.State R) (as : List (Action Arrival Move (Event A))) :
    Always (step (service numbers toUppercase)) (Apart (Exclusive toUppercase)) ⟨world, []⟩ as :=
  KeepsApart.always (kept_relies numbers toUppercase) (exclusive numbers toUppercase) world as

end Exclusion

section Handler

variable {R A : Type} (numbers : Doubles R A) (toUppercase : Str → Str)

/-- The steps of one call. -/
def script (index : Nat) (calls : Calls) (request : SwapRequest) :
    List (Action Arrival Move (Event A)) :=
  [.spawn ⟨request, calls.routerPool, calls.depthRead⟩,
    .move index (.lock calls.lockId calls.lockSet), .env (.wait calls.pause),
    .move index (.read calls.balancePool calls.balanceRead),
    .move index (.settle calls.txHash calls.settlePool calls.pipeline)]

/-- The moves of a call with nothing between them but the time it sleeps. -/
def alone (world : Swap.State R) (calls : Calls) (call : Call) : Call × Swap.State R :=
  let locked := advance numbers world call (.lock calls.lockId calls.lockSet)
  let read := advance numbers (happen numbers locked.2 (.wait calls.pause)) locked.1
    (.read calls.balancePool calls.balanceRead)
  advance numbers read.2 read.1 (.settle calls.txHash calls.settlePool calls.pipeline)

theorem run_script (state : Tasks.State (Swap.State R) Call) (calls : Calls) (request : SwapRequest) :
    run (step (service numbers toUppercase)) state (script state.tasks.length calls request) =
      let call := arrive toUppercase state.world ⟨request, calls.routerPool, calls.depthRead⟩
      ⟨(alone numbers state.world calls call).2,
        state.tasks ++ [(alone numbers state.world calls call).1]⟩ := by
  obtain ⟨world, tasks⟩ := state
  have hspawn : step (service numbers toUppercase) ⟨world, tasks⟩
      (.spawn ⟨request, calls.routerPool, calls.depthRead⟩) =
        ⟨world, tasks ++ [arrive toUppercase world ⟨request, calls.routerPool, calls.depthRead⟩]⟩ :=
    rfl
  have henv : ∀ world tasks,
      step (service numbers toUppercase) ⟨world, tasks⟩ (.env (.wait calls.pause)) =
        ⟨happen numbers world (.wait calls.pause), tasks⟩ := fun _ _ => rfl
  rw [script, run_cons, hspawn, run_cons, step_move_last, run_cons, henv, run_cons, step_move_last,
    run_cons, step_move_last, run_nil]
  rfl

variable {numbers toUppercase}

theorem advance_replied {world : Swap.State R} {call : Call} {response : Response}
    (h : call.phase = .replied response) (what : Move) :
    advance numbers world call what = (call, world) := by
  obtain ⟨request, phase, granted, settledAt⟩ := call
  cases h
  cases what <;> rfl

/-- The second half of the handler, from the end of the sleep on. -/
theorem alone_locked {world : Swap.State R} {call : Call} {impact : Float} {grant : Grant}
    (hphase : call.phase = .locked impact) (hown : call.granted = some grant)
    (hawake : grant.lockedAt + 1200 ≤ world.now) (calls : Calls) :
    let read := advance numbers world call (.read calls.balancePool calls.balanceRead)
    let after := advance numbers read.2 read.1 (.settle calls.txHash calls.settlePool calls.pipeline)
    let rebalanced := executeRebalance numbers calls call.request world.balances
    after.1.request = call.request ∧ after.1.phase = .replied (Swap.answer impact rebalanced.1) ∧
      after.2 = { world with balances := rebalanced.2 } := by
  obtain ⟨request, phase, granted, settledAt⟩ := call
  cases hphase
  cases hown
  have hany : (some grant).any (fun grant => grant.lockedAt + 1200 ≤ world.now) = true := by
    simpa using hawake
  obtain ⟨lockId, txHash, routerPool, depthRead, lockSet, pause, hpause, balancePool, balanceRead,
    settlePool, pipeline⟩ := calls
  intro read after rebalanced
  simp only [read, after, rebalanced, advance, readCall, if_pos hany]
  cases balancePool with
  | some detail => exact ⟨rfl, rfl, rfl⟩
  | none =>
    cases balanceRead with
    | some detail => exact ⟨rfl, rfl, rfl⟩
    | none =>
      simp only [executeRebalance]
      cases checkBalance numbers.toNumbers world.balances (rebalance numbers request) with
      | error e => exact ⟨rfl, rfl, rfl⟩
      | ok _ =>
        cases settlePool with
        | some detail => exact ⟨rfl, rfl, rfl⟩
        | none => cases pipeline <;> exact ⟨rfl, rfl, rfl⟩

/-- A call that ends without a lock makes no move any more. -/
theorem alone_refused {world after : Swap.State R} {calls : Calls} {call ended : Call}
    {response : Response}
    (h : advance numbers world call (.lock calls.lockId calls.lockSet) = (ended, after))
    (hended : ended.phase = .replied response) :
    alone numbers world calls call = (ended, happen numbers after (.wait calls.pause)) := by
  simp only [alone, h, advance_replied hended]

/-- With its lock a call comes to its answer. -/
theorem alone_granted {world : Swap.State R} (calls : Calls) (call : Call) {impact : Float}
    {lockId : Str} {locks : List Lock}
    (h : advance numbers world call (.lock calls.lockId calls.lockSet) =
      ({ call with phase := .locked impact, granted := some ⟨lockId, world.now⟩ },
        { world with locks })) :
    let rebalanced := executeRebalance numbers calls call.request world.balances
    (alone numbers world calls call).1.request = call.request ∧
      (alone numbers world calls call).1.phase = .replied (Swap.answer impact rebalanced.1) ∧
        (alone numbers world calls call).2 =
          { world with now := world.now + calls.pause, locks, balances := rebalanced.2 } := by
  rw [alone, h]
  have hawake : world.now + 1200 ≤ (happen numbers { world with locks } (.wait calls.pause)).now :=
    Nat.add_le_add_left calls.pause_ge world.now
  exact alone_locked rfl rfl hawake calls

/-- What the moves of a call come to, beside what the handler does. -/
def Handled (numbers : Doubles R A) (toUppercase : Str → Str) (world : Swap.State R) (calls : Calls)
    (request : SwapRequest) (after : Call × Swap.State R) : Prop :=
  let handled := sorLockHandler numbers toUppercase world calls request
  after.1.request = request ∧ after.1.phase = .replied handled.1 ∧
    after.2 = { handled.2 with now := world.now + calls.pause }

variable (numbers toUppercase)

theorem alone_handled (world : Swap.State R) (calls : Calls) (request : SwapRequest) :
    Handled numbers toUppercase world calls request
      (alone numbers world calls
        (arrive toUppercase world ⟨request, calls.routerPool, calls.depthRead⟩)) := by
  obtain ⟨lockId, txHash, routerPool, depthRead, lockSet, pause, hpause, balancePool, balanceRead,
    settlePool, pipeline⟩ := calls
  rw [Handled, sorLockHandler, requestRouteLock, arrive]
  cases routerPool with
  | some detail =>
    rw [alone_refused rfl rfl]
    exact ⟨rfl, rfl, rfl⟩
  | none =>
    cases depthRead with
    | some detail =>
      rw [alone_refused rfl rfl]
      exact ⟨rfl, rfl, rfl⟩
    | none =>
      cases hroute : checkRoute toUppercase world.depths request.payAsset request.receiveAsset
          request.amount request.slippageTolerance with
      | error e =>
        rw [alone_refused rfl rfl]
        exact ⟨rfl, rfl, rfl⟩
      | ok routed =>
        obtain ⟨pair, impact⟩ := routed
        let call : Call := ⟨request, .routed pair impact, none, none⟩
        have hlock : advance numbers world call (.lock lockId lockSet) =
            lockCall world call pair impact lockId lockSet := rfl
        rw [lockCall] at hlock
        simp only
        cases hfresh : lockExists (view world) lockId with
        | true =>
          rw [setLock, if_pos hfresh] at hlock ⊢
          cases lockSet with
          | _ =>
            rw [alone_refused hlock rfl]
            exact ⟨rfl, rfl, rfl⟩
        | false =>
          rw [setLock_of_free hfresh] at hlock ⊢
          cases lockSet with
          | answered =>
            let calls : Calls := ⟨lockId, txHash, none, none, .answered, pause, hpause, balancePool,
              balanceRead, settlePool, pipeline⟩
            obtain ⟨hrequest, hphase, hworld⟩ := alone_granted calls call hlock
            refine ⟨hrequest, hphase.trans ?_, hworld.trans ?_⟩
            all_goals
              simp only [call, calls]
              obtain ⟨result, balances⟩ := executeRebalance numbers _ request world.balances
              cases result <;> rfl
          | _ =>
            rw [alone_refused hlock rfl]
            exact ⟨rfl, rfl, rfl⟩

/-- Its steps taken at once are `sor_lock_handler` as one function. -/
theorem uninterrupted_handler (state : Tasks.State (Swap.State R) Call) (calls : Calls)
    (request : SwapRequest) :
    ∃ after,
      run (step (service numbers toUppercase)) state (script state.tasks.length calls request) =
        ⟨after.2, state.tasks ++ [after.1]⟩ ∧
      Handled numbers toUppercase state.world calls request after :=
  ⟨_, run_script numbers toUppercase state calls request,
    alone_handled numbers toUppercase state.world calls request⟩

end Handler

section Examples

/-- Two swaps of all that the wallet has, one within the other: both settle. -/
example :
    let overlapping : List (Action Arrival Move (Event Float)) :=
      [.spawn ⟨Swap.tenKas (lit "USDC"), none, none⟩, .spawn ⟨Swap.tenKas (lit "BTC"), none, none⟩,
        .move 0 (.lock (lit "a") .answered), .move 1 (.lock (lit "b") .answered), .env (.wait 1200),
        .move 0 (.read none none), .move 1 (.read none none), .move 0 (.settle [] none .answered),
        .move 1 (.settle [] none .answered)]
    (run (step (service Swap.wholes Router.upper)) ⟨Swap.idle Swap.funded, []⟩ overlapping).tasks.map
      Call.settledAt = [some 1200, some 1200] := by decide +kernel

end Examples

end StratumPool.SwapService
