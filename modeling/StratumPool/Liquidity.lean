import StratumPool.Lib.Expiring
import StratumPool.Json
import StratumPool.Router

namespace StratumPool.Liquidity

open Lib Lib.Runs StratumPool.Text StratumPool.Json StratumPool.Router

section Poller

/-- The three tokens whose pairs with KAS the poller asks for. -/
inductive Token where
  | kspr | nacho | kasper
  deriving DecidableEq

def Token.pair : Token → Str
  | .kspr => lit "KAS_KSPR"
  | .nacho => lit "KAS_NACHO"
  | .kasper => lit "KAS_KASPER"

/-- `value[index]` gives `null` where there is no such item. -/
def item (v : Value Float) (index : Nat) : Value Float :=
  match v with
  | .array items => items[index]?.getD .null
  | _ => .null

/-- The depth in an answer of the indexer, one million where it has none. -/
def liquidityDepth (parseF64 : Str → Option Float) (json : Value Float) : Float :=
  let mintTotal := (item (json.field (lit "result")) 0).field (lit "mintTotal")
  (mintTotal.asStr.bind parseF64).getD 1000000.0

end Poller

/-- `depths` are the keys `dev:sor:depth:<pair>`, `checked` the requests between
the constraints and the `SET`, `granted` is the history of the locks, by pair and
by the time of the `SET`. -/
structure State where
  depths : Expiring Str Float
  checked : List Checked
  locks : List Lock
  granted : List (Str × Nat)

def boot : State := ⟨.empty Str Float, [], [], []⟩

def depthTtl : Nat := 15 * 1000

/-- What Redis answers for the depths now. -/
def published (state : State) : Depths := state.depths.get depthTtl

/-- `LiveChainProvider::fetch_liquidity` -/
def fetchLiquidity (state : State) (pair : Str) : Float := (published state pair).getD 0.0

def routerDepth (state : State) (pair : Str) : Float := depthOf (published state) pair

/-- The router's own state for its `SET`. -/
def view (state : State) : Router.State :=
  ⟨published state, state.depths.now, state.checked, state.locks⟩

/-- One token of a poller tick, whose answer and whose `SET` may fail, the two
halves of a lock request, each of which Redis may fail, and time. -/
inductive Action where
  | poll (token : Token) (reply : Option (Value Float)) (ok : Bool)
  | check (request : SwapRequest) (ok : Bool)
  | lock (index : Nat) (lockId : Str) (ok : Bool)
  | wait (millis : Nat)

section Steps

variable (parseF64 : Str → Option Float) (toUppercase : Str → Str)

def poll (state : State) (token : Token) (reply : Option (Value Float)) (ok : Bool) : State :=
  match reply, ok with
  | some json, true =>
      { state with depths := state.depths.set token.pair (liquidityDepth parseF64 json) }
  | _, _ => state

def check (state : State) (request : SwapRequest) (ok : Bool) : State :=
  match ok, checkRoute toUppercase (published state) request.payAsset request.receiveAsset
      request.amount request.slippageTolerance with
  | true, .ok (pair, impact) =>
      { state with checked := state.checked ++ [⟨pair, request.amount, impact⟩] }
  | _, _ => state

def lock (state : State) (index : Nat) (lockId : Str) (ok : Bool) : State :=
  match state.checked[index]? with
  | none => state
  | some call =>
      let answered := { state with checked := state.checked.eraseIdx index }
      match ok, setLock (view state) call lockId with
      | true, (.ok _, locks) =>
          { answered with
            locks
            granted := state.granted ++ [(call.pair, state.depths.now)] }
      | _, _ => answered

def step (state : State) : Action → State
  | .poll token reply ok => poll parseF64 state token reply ok
  | .check request ok => check toUppercase state request ok
  | .lock index lockId ok => lock state index lockId ok
  | .wait millis => { state with depths := state.depths.wait millis }

end Steps

section Published

variable (parseF64 : Str → Option Float) (toUppercase : Str → Str)

/-- A depth of the pair was written at most fifteen seconds before `time`. -/
def Recent (state : State) (pair : Str) (time : Nat) : Prop :=
  state.depths.WrittenBy depthTtl pair time

/-- Every lock was granted on a pair that had a recent depth. -/
def GrantsPublished (state : State) : Prop :=
  ∀ grant ∈ state.granted, Recent state grant.1 grant.2

def DepthsAgree (state : State) : Prop :=
  ∀ pair, routerDepth state pair = fetchLiquidity state pair

/-- A `SET` that gets its key finds a recent depth of its pair. -/
def SetsPublished (state : State) : Action → Prop
  | .lock index lockId ok => ok = true → ∀ call, state.checked[index]? = some call →
      lockExists (view state) lockId = false → Recent state call.pair state.depths.now
  | _ => True

def requestPair (request : SwapRequest) : Str :=
  pairOf toUppercase request.payAsset request.receiveAsset

/-- The default depth bears the request. -/
def Borne (request : SwapRequest) : Prop :=
  ¬ (500000.0 : Float) < request.amount ∧ ¬ request.slippageTolerance < request.amount / 500000.0

theorem published_isSome_iff (state : State) (pair : Str) :
    (published state pair).isSome = true ↔ Recent state pair state.depths.now :=
  state.depths.get_isSome_iff depthTtl pair

/-- The router and the live provider see the same depth only where one is
recent: without it the one takes half a million, the other nothing. -/
theorem depths_agree_iff (state : State) (pair : Str) :
    routerDepth state pair = fetchLiquidity state pair ↔ Recent state pair state.depths.now := by
  rw [← published_isSome_iff, routerDepth, depthOf, fetchLiquidity]
  cases published state pair with
  | some depth => simp
  | none =>
    refine iff_of_false ?_ (by simp)
    intro he
    have hlt : (0.0 : Float) < 500000.0 := by decide +kernel
    have hirrefl : ¬ (0.0 : Float) < 0.0 := by decide +kernel
    rw [Option.getD_none, Option.getD_none] at he
    exact hirrefl (he ▸ hlt)

theorem recent_mono {state after : State} (h : state.depths.writes <+: after.depths.writes)
    {pair : Str} {time : Nat} (hr : Recent state pair time) : Recent after pair time := by
  obtain ⟨w, hw, hle, hlive⟩ := hr
  exact ⟨w, h.subset hw, hle, hlive⟩

theorem writes_step (state : State) (a : Action) :
    state.depths.writes <+: (step parseF64 toUppercase state a).depths.writes := by
  cases a with
  | poll token reply ok =>
    simp only [step, poll]
    split
    · exact List.prefix_append _ _
    · exact List.prefix_rfl
  | check request ok =>
    simp only [step, check]
    split <;> exact List.prefix_rfl
  | lock index lockId ok =>
    simp only [step, lock]
    split
    · exact List.prefix_rfl
    · split <;> exact List.prefix_rfl
  | wait millis => exact List.prefix_rfl

/-- What the constraints let through where no depth is published. -/
theorem checkRoute_unpublished {state : State} {request : SwapRequest}
    (h : ¬ Recent state (requestPair toUppercase request) state.depths.now) :
    checkRoute toUppercase (published state) request.payAsset request.receiveAsset request.amount
        request.slippageTolerance =
      if 500000.0 < request.amount then
        .error (.insufficientLiquidity (requestPair toUppercase request))
      else if request.slippageTolerance < request.amount / 500000.0 then .error .slippageViolation
      else .ok (requestPair toUppercase request, request.amount / 500000.0) := by
  have hnone : published state (requestPair toUppercase request) = none := by
    rwa [← published_isSome_iff, Option.isSome_iff_ne_none, not_not] at h
  rw [requestPair] at hnone ⊢
  simp only [checkRoute, depthOf, hnone, Option.getD_none]

theorem grantsPublished_step {state : State} (h : GrantsPublished state) (a : Action) :
    GrantsPublished (step parseF64 toUppercase state a) ↔ SetsPublished state a := by
  have hkept : ∀ grant ∈ state.granted,
      Recent (step parseF64 toUppercase state a) grant.1 grant.2 :=
    fun grant hm => recent_mono (writes_step parseF64 toUppercase state a) (h grant hm)
  cases a with
  | poll token reply ok =>
    apply iff_of_true ?_ trivial
    intro grant hm
    apply hkept grant
    simp only [step, poll] at hm
    split at hm <;> exact hm
  | wait millis => exact iff_of_true hkept trivial
  | check request ok =>
    apply iff_of_true ?_ trivial
    intro grant hm
    apply hkept grant
    simp only [step, check] at hm
    split at hm <;> exact hm
  | lock index lockId ok =>
    simp only [step, lock, SetsPublished]
    cases hcall : state.checked[index]? with
    | none => exact iff_of_true h (fun _ call hc => by cases hc)
    | some call =>
      cases ok with
      | false => exact iff_of_true h (fun hok => by cases hok)
      | true =>
        cases hfree : lockExists (view state) lockId with
        | true =>
          simp only [setLock, hfree, if_true]
          exact iff_of_true h (fun _ _ _ hfree' => by cases hfree')
        | false =>
          simp only [setLock, hfree, Bool.false_eq_true, if_false, forall_const, Option.some.injEq,
            forall_eq']
          constructor
          · intro hgrants
            exact hgrants (call.pair, state.depths.now)
              (List.mem_append_right _ (List.mem_singleton_self _))
          · intro hrecent grant hm
            obtain hm | hm := List.mem_append.mp hm
            · exact h grant hm
            · rw [List.mem_singleton.mp hm]
              exact hrecent

/-- A request that the default depth bears is granted without any depth. -/
theorem unpublished_granted {state : State} {request : SwapRequest}
    (hnot : ¬ Recent state (requestPair toUppercase request) state.depths.now)
    (hborne : Borne request) {lockId : Str} (hfree : lockExists (view state) lockId = false) :
    ¬ GrantsPublished (run (step parseF64 toUppercase) state
      [.check request true, .lock state.checked.length lockId true]) := by
  have hok := checkRoute_unpublished toUppercase hnot
  rw [if_neg hborne.1, if_neg hborne.2] at hok
  have hfree' : lockExists (view { state with
      checked := state.checked ++ [⟨requestPair toUppercase request, request.amount,
        request.amount / 500000.0⟩] }) lockId = false := hfree
  have hrun : (run (step parseF64 toUppercase) state
      [.check request true, .lock state.checked.length lockId true]).depths = state.depths ∧
      (run (step parseF64 toUppercase) state
        [.check request true, .lock state.checked.length lockId true]).granted =
        state.granted ++ [(requestPair toUppercase request, state.depths.now)] := by
    simp [step, check, hok, lock, setLock, hfree']
  intro hgrants
  have hrecent := hgrants (requestPair toUppercase request, state.depths.now)
    (by rw [hrun.2]; exact List.mem_append_right _ (List.mem_singleton_self _))
  rw [Recent, hrun.1] at hrecent
  exact hnot hrecent

/-- The poller writes depths for its own pairs only. -/
def TokensOnly (state : State) : Prop := ∀ w ∈ state.depths.writes, ∃ token, w.1 = Token.pair token

theorem tokensOnly_step {state : State} (h : TokensOnly state) (a : Action) :
    TokensOnly (step parseF64 toUppercase state a) := by
  cases a with
  | poll token reply ok =>
    simp only [step, poll]
    split
    · intro w hw
      obtain hw | hw := List.mem_append.mp hw
      · exact h w hw
      · rw [List.mem_singleton.mp hw]
        exact ⟨token, rfl⟩
    · exact h
  | check request ok =>
    simp only [step, check]
    split <;> exact h
  | lock index lockId ok =>
    simp only [step, lock]
    split
    · exact h
    · split <;> exact h
  | wait millis => exact h

/-- The depths of a pair that the poller does not know never agree. -/
theorem depths_disagree {state : State} (h : TokensOnly state) : ¬ DepthsAgree state := by
  intro hagree
  obtain ⟨w, hw, -⟩ := (depths_agree_iff state (lit "KAS_BTC")).mp (hagree _)
  obtain ⟨token, htoken⟩ := h _ hw
  have hother : ∀ token, lit "KAS_BTC" ≠ Token.pair token := by
    intro token
    cases token <;> decide
  exact hother token htoken

/-- In no state of any run do the depths of the router and of the live provider
agree on all pairs; they do on those with a recent depth and on no others. The
locks were all granted on recent depths if and only if each `SET` found one, and
a request that the default depth bears gets a lock without. -/
theorem locks_published (as : List Action) :
    Always (step parseF64 toUppercase) (fun state => ¬ (GrantsPublished state ∧ DepthsAgree state))
      boot as ∧
    Always (step parseF64 toUppercase) (fun state => ∀ pair,
      routerDepth state pair = fetchLiquidity state pair ↔
        Recent state pair state.depths.now) boot as ∧
    (Always (step parseF64 toUppercase) GrantsPublished boot as ↔
      Guarded (step parseF64 toUppercase) SetsPublished boot as) ∧
    ∀ pre request,
      ¬ Recent (run (step parseF64 toUppercase) boot pre) (requestPair toUppercase request)
        (run (step parseF64 toUppercase) boot pre).depths.now → Borne request →
      ∀ lockId, lockExists (view (run (step parseF64 toUppercase) boot pre)) lockId = false →
        ¬ GrantsPublished (run (step parseF64 toUppercase) boot (pre ++ [.check request true,
          .lock (run (step parseF64 toUppercase) boot pre).checked.length lockId true])) := by
  refine ⟨?_, fun pre _ pair => depths_agree_iff _ pair, ?_, ?_⟩
  · have htokens : Always (step parseF64 toUppercase) TokensOnly boot as :=
      always_of_invariant (fun w hw => absurd hw List.not_mem_nil)
        (fun _ a h => tokensOnly_step parseF64 toUppercase h a) as
    exact always_mono (fun _ h hboth => depths_disagree h hboth.2) htokens
  · apply always_iff_guarded (I := fun _ => True) (fun _ _ => trivial)
    · exact fun grant hm => absurd hm List.not_mem_nil
    · exact fun _ a _ h => grantsPublished_step parseF64 toUppercase h a
  · intro pre request hnot hborne lockId hfree
    rw [run_append]
    exact unpublished_granted parseF64 toUppercase hnot hborne hfree

end Published

section Examples

/-- The poller never reached the indexer, and the router lends out depth that
nobody published. -/
theorem lock_without_depth :
    ¬ ∀ (parseF64 : Str → Option Float) (toUppercase : Str → Str) (as : List Action),
      Always (step parseF64 toUppercase) (fun state => GrantsPublished state ∧ DepthsAgree state)
        boot as := by
  intro h
  have hborne : Borne largeSwap := by
    constructor
    · decide +kernel
    · decide +kernel
  have hnever : ¬ Recent boot (requestPair upper largeSwap) boot.depths.now := by
    rintro ⟨w, hw, -⟩
    cases hw
  have hfree : lockExists (view boot) (lit "a") = false := rfl
  apply unpublished_granted (fun _ => none) upper hnever hborne hfree
  exact ((h (fun _ => none) upper _).last).1

end Examples

end StratumPool.Liquidity
