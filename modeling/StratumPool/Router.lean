import StratumPool.Lib.Runs
import StratumPool.Lib.Binary64
import StratumPool.Provider
import Mathlib.Algebra.Order.BigOperators.Group.List

namespace StratumPool.Router

open Lib.Runs Lib.Binary64 StratumPool.Text StratumPool.Provider

/-- A body of `/v1/sor/lock`. JSON has no infinite numbers, and its reader
refuses those too large for a double. -/
structure SwapRequest where
  wallet : Str
  payAsset : Str
  receiveAsset : Str
  amount : Float
  slippageTolerance : Float
  amount_finite : amount.isFinite = true
  slippage_finite : slippageTolerance.isFinite = true

section Checks

variable (toUppercase : Str → Str)

def pairOf (srcAsset dstAsset : Str) : Str := toUppercase srcAsset ++ ['_'] ++ toUppercase dstAsset

/-- The published depths, under the keys `dev:sor:depth:<pair>`. -/
abbrev Depths := Str → Option Float

def depthOf (depths : Depths) (pair : Str) : Float := (depths pair).getD 500000.0

/-- The first two constraints of `request_route_lock`, with the pair and the
impact they let through. -/
def checkRoute (depths : Depths) (srcAsset dstAsset : Str) (amount maxSlippage : Float) :
    Except SorError (Str × Float) :=
  let pair := pairOf toUppercase srcAsset dstAsset
  let depth := depthOf depths pair
  if depth < amount then .error (.insufficientLiquidity pair)
  else
    let impact := amount / depth
    if maxSlippage < impact then .error .slippageViolation
    else .ok (pair, impact)

end Checks

/-- A key `dev:sor:lock:<lockId>`. The pair and the amount it was granted for
are not stored in it. -/
structure Lock where
  lockId : Str
  expiresAt : Nat
  pair : Str
  amount : Float

structure Checked where
  pair : Str
  amount : Float
  impact : Float

/-- `now` is the clock of Redis in milliseconds, `checked` are the requests
between the constraints and the `SET`. -/
structure State where
  depths : Depths
  now : Nat
  checked : List Checked
  locks : List Lock

def Lock.live (now : Nat) (lock : Lock) : Bool := now ≤ lock.expiresAt

def ttlMillis : Nat := 15 * 1000

def lockExists (state : State) (lockId : Str) : Bool :=
  state.locks.any (fun lock => lock.live state.now && lock.lockId == lockId)

/-- `SET dev:sor:lock:<lockId> LOCKED EX 15 NX` and the answer to the caller. -/
def setLock (state : State) (call : Checked) (lockId : Str) :
    Except SorError (Str × Float) × List Lock :=
  if lockExists state lockId then
    (.error (.broadcastFailure (lit "Route lock collision. Try again.")), state.locks)
  else
    (.ok (lockId, call.impact),
      state.locks ++ [⟨lockId, state.now + ttlMillis, call.pair, call.amount⟩])

inductive Action where
  | publish (pair : Str) (depth : Option Float)
  | check (request : SwapRequest)
  | lock (index : Nat) (lockId : Str)
  | wait (millis : Nat)

def step (toUppercase : Str → Str) (state : State) : Action → State
  | .publish pair depth => { state with depths := Function.update state.depths pair depth }
  | .check request =>
      match checkRoute toUppercase state.depths request.payAsset request.receiveAsset
          request.amount request.slippageTolerance with
      | .error _ => state
      | .ok (pair, impact) =>
          { state with checked := state.checked ++ [⟨pair, request.amount, impact⟩] }
  | .lock index lockId =>
      match state.checked[index]? with
      | none => state
      | some call =>
          { state with
            checked := state.checked.eraseIdx index
            locks := (setLock state call lockId).2 }
  | .wait millis => { state with now := state.now + millis }

def boot (depths : Depths) : State := ⟨depths, 0, [], []⟩

section Commitment

variable (pair : Str)

def liveAmounts (locks : List Lock) (now : Nat) : List ℚ :=
  (locks.filter (fun lock => lock.live now && lock.pair == pair)).map (fun lock => toRat lock.amount)

/-- What the live locks on the pair add up to. -/
def committed (state : State) : ℚ := (liveAmounts pair state.locks state.now).sum

def WithinDepth (state : State) : Prop := AtMost (committed pair state) (depthOf state.depths pair)

def Busy (state : State) : Prop := ∃ lock ∈ state.locks, lock.live state.now = true ∧ lock.pair = pair

/-- A lock granted while another one on the pair is live fits beside what is
committed, and a lock of a negative amount leaves the others room when it
expires. -/
def LeavesRoom (state : State) : Action → Prop
  | .lock index lockId => ∀ call, state.checked[index]? = some call → call.pair = pair →
      lockExists state lockId = false → Busy pair state →
        AtMost (committed pair state + toRat call.amount) (depthOf state.depths pair)
  | .wait millis =>
      (∃ lock ∈ state.locks, lock.pair = pair ∧ lock.live state.now = true ∧
        lock.live (state.now + millis) = false ∧ toRat lock.amount < 0) →
        AtMost (liveAmounts pair state.locks (state.now + millis)).sum (depthOf state.depths pair)
  | _ => True

def KeepsDepth : Action → Prop
  | .publish published _ => published ≠ pair
  | _ => True

/-- Every request past the constraints asks for no more than the depth. -/
def CheckedWithin (state : State) : Prop :=
  ∀ call ∈ state.checked, call.pair = pair → AtMost (toRat call.amount) (depthOf state.depths pair)

theorem liveAmounts_append (locks : List Lock) (lock : Lock) (now : Nat) :
    liveAmounts pair (locks ++ [lock]) now =
      liveAmounts pair locks now ++
        if lock.live now ∧ lock.pair = pair then [toRat lock.amount] else [] := by
  simp only [liveAmounts, List.filter_append, List.map_append]
  congr 1
  by_cases h : lock.live now ∧ lock.pair = pair <;> simp [h]

theorem committed_of_not_busy {state : State} (h : ¬ Busy pair state) : committed pair state = 0 := by
  have hnil : state.locks.filter (fun lock => lock.live state.now && lock.pair == pair) = [] := by
    rw [List.filter_eq_nil_iff]
    intro lock hm hc
    exact h ⟨lock, hm, by simpa using hc⟩
  simp [committed, liveAmounts, hnil]

theorem live_of_later {lock : Lock} {now millis : Nat} (h : lock.live (now + millis) = true) :
    lock.live now = true := by
  simp only [Lock.live, decide_eq_true_eq] at h ⊢
  omega

/-- Time takes nothing but nonnegative amounts off the sum, unless a negative
one expires. -/
theorem liveAmounts_later_le (locks : List Lock) (now millis : Nat)
    (h : ∀ lock ∈ locks, lock.pair = pair → lock.live now = true →
      lock.live (now + millis) = false → 0 ≤ toRat lock.amount) :
    (liveAmounts pair locks (now + millis)).sum ≤ (liveAmounts pair locks now).sum := by
  induction locks with
  | nil => exact le_rfl
  | cons lock locks ih =>
    have hrest := ih (fun l hl => h l (List.mem_cons_of_mem _ hl))
    simp only [liveAmounts] at hrest ⊢
    by_cases hp : lock.pair = pair
    · cases hlater : lock.live (now + millis) with
      | true => simpa [hp, hlater, live_of_later hlater] using hrest
      | false =>
        cases hnow : lock.live now with
        | true =>
          have hnn := h lock List.mem_cons_self hp hnow hlater
          simpa [hp, hlater, hnow] using hrest.trans (le_add_of_nonneg_left hnn)
        | false => simpa [hp, hlater, hnow] using hrest
    · simpa [hp] using hrest

theorem setLock_of_free {state : State} {lockId : Str} (h : lockExists state lockId = false)
    (call : Checked) :
    setLock state call lockId =
      (.ok (lockId, call.impact),
        state.locks ++ [⟨lockId, state.now + ttlMillis, call.pair, call.amount⟩]) := by
  simp [setLock, h]

theorem setLock_of_exists {state : State} {lockId : Str} (h : lockExists state lockId = true)
    (call : Checked) : (setLock state call lockId).2 = state.locks := by
  simp [setLock, h]

end Commitment

section Steps

variable (toUppercase : Str → Str) (pair : Str)

theorem depthOf_step (state : State) (a : Action) (ha : KeepsDepth pair a) :
    depthOf (step toUppercase state a).depths pair = depthOf state.depths pair := by
  cases a with
  | publish published depth => simp [step, depthOf, Function.update_of_ne (Ne.symm ha)]
  | check request =>
    simp only [step]
    split <;> rfl
  | lock index lockId =>
    simp only [step]
    split <;> rfl
  | wait millis => rfl

theorem checkRoute_amount {depths : Depths} {srcAsset dstAsset : Str} {amount maxSlippage : Float}
    {result : Str × Float}
    (h : checkRoute toUppercase depths srcAsset dstAsset amount maxSlippage = .ok result) :
    ¬ depthOf depths result.1 < amount := by
  rw [checkRoute] at h
  simp only at h
  split_ifs at h with hdepth hslip
  cases h
  exact hdepth

theorem checkedWithin_step {state : State} (h0 : AtMost 0 (depthOf state.depths pair))
    (hc : CheckedWithin pair state) (a : Action) (ha : KeepsDepth pair a) :
    CheckedWithin pair (step toUppercase state a) := by
  intro call hm hp
  rw [depthOf_step toUppercase pair state a ha]
  cases a with
  | publish published depth => exact hc call hm hp
  | wait millis => exact hc call hm hp
  | lock index lockId =>
    simp only [step] at hm
    split at hm
    · exact hc call hm hp
    · exact hc call (List.mem_of_mem_eraseIdx hm) hp
  | check request =>
    simp only [step] at hm
    split at hm
    · exact hc call hm hp
    · rename_i hok
      obtain hm | hm := List.mem_append.mp hm
      · exact hc call hm hp
      · rw [List.mem_singleton.mp hm] at hp ⊢
        simp only at hp ⊢
        subst hp
        have hlt := checkRoute_amount toUppercase hok
        simp only at hlt
        exact atMost_of_not_lt request.amount_finite h0 hlt

theorem committed_lock {state : State} {call : Checked} {lockId : Str} :
    (liveAmounts pair (state.locks ++ [⟨lockId, state.now + ttlMillis, call.pair, call.amount⟩])
      state.now).sum = committed pair state + if call.pair = pair then toRat call.amount else 0 := by
  have hlive : Lock.live state.now ⟨lockId, state.now + ttlMillis, call.pair, call.amount⟩ = true := by
    simp [Lock.live]
  rw [liveAmounts_append, List.sum_append]
  simp only [hlive, true_and, committed]
  by_cases hp : call.pair = pair <;> simp [hp]

theorem within_step {state : State} (hc : CheckedWithin pair state) (hw : WithinDepth pair state)
    (a : Action) (ha : KeepsDepth pair a) :
    WithinDepth pair (step toUppercase state a) ↔ LeavesRoom pair state a := by
  rw [WithinDepth]
  rw [depthOf_step toUppercase pair state a ha]
  cases a with
  | publish published depth => exact iff_of_true hw trivial
  | check request =>
    refine iff_of_true ?_ trivial
    simp only [step]
    split <;> exact hw
  | wait millis =>
    simp only [LeavesRoom]
    by_cases hneg : ∃ lock ∈ state.locks, lock.pair = pair ∧ lock.live state.now = true ∧
        lock.live (state.now + millis) = false ∧ toRat lock.amount < 0
    · exact ⟨fun h _ => h, fun h => h hneg⟩
    · refine iff_of_true (hw.mono (liveAmounts_later_le pair _ _ _ ?_)) (fun h => absurd h hneg)
      intro lock hm hp hnow hlater
      by_contra hlt
      exact hneg ⟨lock, hm, hp, hnow, hlater, not_le.mp hlt⟩
  | lock index lockId =>
    simp only [step, LeavesRoom]
    cases hi : state.checked[index]? with
    | none => exact iff_of_true hw (fun call hcall => by cases hcall)
    | some call =>
      simp only [Option.some.injEq, forall_eq', committed]
      cases hg : lockExists state lockId with
      | true =>
        rw [setLock_of_exists hg]
        exact iff_of_true hw (fun _ h => by cases h)
      | false =>
        rw [setLock_of_free hg, committed_lock]
        by_cases hp : call.pair = pair
        · by_cases hb : Busy pair state
          · simp [hp, hb, committed]
          · have hfits := hc call (List.mem_of_getElem? hi) hp
            simpa [hp, hb, committed_of_not_busy pair hb] using hfits
        · simpa [hp, WithinDepth] using hw

theorem within_iff_of_depth_nonneg {depths : Depths} (h0 : AtMost 0 (depthOf depths pair))
    {as : List Action} (hkeep : ∀ a ∈ as, KeepsDepth pair a) :
    Always (step toUppercase) (WithinDepth pair) (boot depths) as ↔
      Guarded (step toUppercase) (LeavesRoom pair) (boot depths) as := by
  have hinv : Always (step toUppercase) (fun state =>
      depthOf state.depths pair = depthOf depths pair ∧ CheckedWithin pair state) (boot depths) as := by
    refine prefix_induction ⟨rfl, fun call hm => by cases hm⟩ ?_
    intro pre a hp ⟨hd, hc⟩
    have ha := hkeep a (hp.subset (by simp))
    rw [run_concat]
    exact ⟨(depthOf_step toUppercase pair _ a ha).trans hd,
      checkedWithin_step toUppercase pair (by rwa [hd]) hc a ha⟩
  apply prefix_iff_guarded (by simpa [WithinDepth, committed, liveAmounts, boot] using h0)
  intro pre a hp hw
  rw [run_concat]
  exact within_step toUppercase pair (hinv pre (prefix_of_concat hp)).2 hw a
    (hkeep a (hp.subset (by simp)))

/-- The live locks on a pair stay within its depth if and only if the depth is
no less than zero and every lock leaves room for those it meets. -/
theorem locks_within_depth_iff (depths : Depths) {as : List Action}
    (hkeep : ∀ a ∈ as, KeepsDepth pair a) :
    Always (step toUppercase) (WithinDepth pair) (boot depths) as ↔
      0.0 ≤ depthOf depths pair ∧
        Guarded (step toUppercase) (LeavesRoom pair) (boot depths) as := by
  rw [← zero_atMost_iff]
  constructor
  · intro h
    have h0 : AtMost 0 (depthOf depths pair) := by
      simpa [WithinDepth, committed, liveAmounts, boot] using h.here
    exact ⟨h0, (within_iff_of_depth_nonneg toUppercase pair h0 hkeep).mp h⟩
  · rintro ⟨h0, hg⟩
    exact (within_iff_of_depth_nonneg toUppercase pair h0 hkeep).mpr hg

end Steps

section Examples

def upper (s : Str) : Str := s.map Char.toUpper

def largeSwap : SwapRequest :=
  ⟨lit "admin", lit "KAS", lit "BTC", 300000.0, 1.0, by decide +kernel, by decide +kernel⟩

def kasBtc : Str := lit "KAS_BTC"

theorem checkRoute_largeSwap :
    checkRoute upper (fun _ => none) largeSwap.payAsset largeSwap.receiveAsset largeSwap.amount
      largeSwap.slippageTolerance = .ok (kasBtc, 300000.0 / 500000.0) := by
  have hdepth : ¬ (500000.0 : Float) < 300000.0 := by decide +kernel
  have hslip : ¬ (1.0 : Float) < 300000.0 / 500000.0 := by decide +kernel
  have hpair : pairOf upper (lit "KAS") (lit "BTC") = kasBtc := by decide
  simp only [checkRoute, depthOf, largeSwap, hpair, Option.getD_none, if_neg hdepth, if_neg hslip]

theorem toRat_large : toRat 300000.0 = 300000 :=
  toRat_of_units (n := 300000) (by decide +kernel)

theorem atMost_default (q : ℚ) : AtMost q 500000.0 ↔ q ≤ 500000 := by
  have hf : (500000.0 : Float).isFinite = true := by decide +kernel
  rw [AtMost, if_pos hf, toRat_of_units (n := 500000) (by decide +kernel)]
  norm_cast

theorem step_check_largeSwap (checked : List Checked) (locks : List Lock) :
    step upper ⟨fun _ => none, 0, checked, locks⟩ (.check largeSwap) =
      ⟨fun _ => none, 0, checked ++ [⟨kasBtc, 300000.0, 300000.0 / 500000.0⟩], locks⟩ := by
  rw [step]
  simp only [checkRoute_largeSwap]
  rfl

/-- Two requests for three fifths of the depth both hold a lock. -/
theorem two_locks_exceed_depth :
    ¬ Always (step upper) (WithinDepth kasBtc) (boot fun _ => none)
      [.check largeSwap, .check largeSwap, .lock 0 (lit "a"), .lock 0 (lit "b")] := by
  intro h
  have hlast := h.last
  simp only [boot, run_cons, run_nil, step_check_largeSwap] at hlast
  have hne : lit "a" ≠ lit "b" := by decide
  simp [step, setLock, lockExists, Lock.live, hne, WithinDepth, committed, liveAmounts, depthOf,
    atMost_default, toRat_large] at hlast
  norm_num at hlast

theorem one_lock_within_depth :
    Always (step upper) (WithinDepth kasBtc) (boot fun _ => none)
      [.check largeSwap, .lock 0 (lit "a")] := by
  refine (locks_within_depth_iff upper kasBtc _ (by simp [KeepsDepth])).mpr ⟨by decide +kernel, ?_⟩
  simp only [guarded_cons, guarded_nil, boot, step_check_largeSwap]
  simp [LeavesRoom, Busy]

end Examples

end StratumPool.Router
