import StratumPool.Lib.Runs
import StratumPool.Lib.Table
import StratumPool.Provider
import Mathlib.Algebra.Order.Group.Defs
import Mathlib.Algebra.Order.Ring.Rat

namespace StratumPool.Treasury

open Lib Lib.Runs StratumPool.Text StratumPool.Provider

/-- What `HINCRBYFLOAT` makes of a field and an amount, and what it starts from
where there is no field. -/
structure Sums (R A : Type) where
  absent : R
  add : R → A → R

/-- The numbers of a treasury: `R` stands in the fields, `A` is what the code
reckons with. It reads `zero` where there is no field. -/
structure Numbers (R A : Type) extends Sums R A where
  zero : A
  read : R → A
  less : A → A → Bool
  neg : A → A

/-- Sums that nothing rounds. -/
def plain (R : Type) [AddCommMonoid R] : Sums R R := ⟨0, fun a b => a + b⟩

@[simp] theorem plain_absent (R : Type) [AddCommMonoid R] : (plain R).absent = 0 := rfl

@[simp] theorem plain_add {R : Type} [AddCommMonoid R] (a b : R) : (plain R).add a b = a + b := rfl

def unrounded (R : Type) [AddCommGroup R] [LinearOrder R] : Numbers R R :=
  { plain R with
    zero := 0
    read := id
    less := fun a b => decide (a < b)
    neg := fun a => -a }

/-- The hashes `dev:sor:treasury:balances:<wallet>`, by wallet and asset. -/
abbrev Balances (R : Type) := Table (Str × Str) R

structure Rebalance (A : Type) where
  wallet : Str
  srcAsset : Str
  dstAsset : Str
  amount : A

/-- `checked` are the calls between their two halves. -/
structure State (R A : Type) where
  balances : Balances R
  checked : List (Rebalance A)

inductive Action (A : Type) where
  | check (call : Rebalance A)
  | settle (index : Nat)
  | faucet (asset : Str) (amount : A)

section Code

variable {R A : Type} (sums : Sums R A) (numbers : Numbers R A)

/-- The number that stands in a field. -/
def held (balances : Balances R) (wallet asset : Str) : R :=
  (balances.lookup (wallet, asset)).getD sums.absent

def hincrbyfloat (balances : Balances R) (wallet asset : Str) (increment : A) : Balances R :=
  balances.insert (wallet, asset) (sums.add (held sums balances wallet asset) increment)

def getTreasuryBalance (balances : Balances R) (wallet asset : Str) : A :=
  ((balances.lookup (wallet, asset)).map numbers.read).getD numbers.zero

def triggerFaucet (balances : Balances R) (asset : Str) (amount : A) : Balances R :=
  hincrbyfloat numbers.toSums balances (lit "admin") asset amount

/-- The first half of `execute_rebalance`, which reads the balance. -/
def checkBalance (balances : Balances R) (call : Rebalance A) : Except SorError Unit :=
  if numbers.less (getTreasuryBalance numbers balances call.wallet call.srcAsset) call.amount then
    .error (.insufficientLiquidity call.srcAsset)
  else .ok ()

/-- The second half, one MULTI/EXEC. -/
def settle (balances : Balances R) (call : Rebalance A) : Balances R :=
  hincrbyfloat numbers.toSums
    (hincrbyfloat numbers.toSums balances call.wallet call.srcAsset (numbers.neg call.amount))
    call.wallet call.dstAsset call.amount

def step (treasury : State R A) : Action A → State R A
  | .check call =>
      match checkBalance numbers treasury.balances call with
      | .error _ => treasury
      | .ok () => { treasury with checked := treasury.checked ++ [call] }
  | .settle index =>
      match treasury.checked[index]? with
      | none => treasury
      | some call =>
          { balances := settle numbers treasury.balances call
            checked := treasury.checked.eraseIdx index }
  | .faucet asset amount =>
      { treasury with balances := triggerFaucet numbers treasury.balances asset amount }

theorem held_hincrbyfloat (balances : Balances R) (wallet asset wallet' asset' : Str)
    (increment : A) :
    held sums (hincrbyfloat sums balances wallet asset increment) wallet' asset' =
      if wallet' = wallet ∧ asset' = asset then
        sums.add (held sums balances wallet' asset') increment
      else held sums balances wallet' asset' := by
  by_cases h : wallet' = wallet ∧ asset' = asset
  · obtain ⟨rfl, rfl⟩ := h
    simp [hincrbyfloat, held]
  · have hne : (wallet', asset') ≠ (wallet, asset) := fun he => h (by simpa using he)
    rw [if_neg h, hincrbyfloat, held, AList.lookup_insert_ne hne]
    rfl

/-- The increments that a settlement makes to one field, in their order. -/
def increments (call : Rebalance A) (wallet asset : Str) : List A :=
  (if wallet = call.wallet ∧ asset = call.srcAsset then [numbers.neg call.amount] else []) ++
    if wallet = call.wallet ∧ asset = call.dstAsset then [call.amount] else []

theorem held_settle (balances : Balances R) (call : Rebalance A) (wallet asset : Str) :
    held numbers.toSums (settle numbers balances call) wallet asset =
      (increments numbers call wallet asset).foldl numbers.add
        (held numbers.toSums balances wallet asset) := by
  rw [settle, held_hincrbyfloat, held_hincrbyfloat, increments]
  split_ifs <;> rfl

end Code

variable {R : Type} [AddCommGroup R] [LinearOrder R]

@[simp] theorem unrounded_toSums : (unrounded R).toSums = plain R := rfl

@[simp] theorem unrounded_less (a b : R) : (unrounded R).less a b = decide (a < b) := rfl

@[simp] theorem unrounded_neg (a : R) : (unrounded R).neg a = -a := rfl

section Balances

theorem getTreasuryBalance_unrounded (balances : Balances R) (wallet asset : Str) :
    getTreasuryBalance (unrounded R) balances wallet asset =
      held (plain R) balances wallet asset := by
  have hread : (unrounded R).read = id := rfl
  rw [getTreasuryBalance, hread, Option.map_id]
  rfl

@[simp] theorem balance_hincrbyfloat (balances : Balances R) (wallet asset wallet' asset' : Str)
    (increment : R) :
    getTreasuryBalance (unrounded R) (hincrbyfloat (plain R) balances wallet asset increment)
        wallet' asset' =
      getTreasuryBalance (unrounded R) balances wallet' asset' +
        if wallet' = wallet ∧ asset' = asset then increment else 0 := by
  rw [getTreasuryBalance_unrounded, getTreasuryBalance_unrounded, held_hincrbyfloat]
  split_ifs <;> simp

/-- A settlement moves the amount from one asset of the wallet to the other. -/
theorem balance_settle (balances : Balances R) (call : Rebalance R) (wallet asset : Str) :
    getTreasuryBalance (unrounded R) (settle (unrounded R) balances call) wallet asset =
      getTreasuryBalance (unrounded R) balances wallet asset -
          (if wallet = call.wallet ∧ asset = call.srcAsset then call.amount else 0) +
        (if wallet = call.wallet ∧ asset = call.dstAsset then call.amount else 0) := by
  rw [settle, unrounded_toSums, balance_hincrbyfloat, balance_hincrbyfloat]
  split_ifs <;> simp [sub_eq_add_neg]

end Balances

section Conservation

/-- The sum of all the fields of one wallet's hash. -/
def walletSum (balances : Balances R) (wallet : Str) : R :=
  Table.total (fun key balance => if key.1 = wallet then balance else 0) balances

/-- What the wallet gets from outside in a step. The faucet knows one wallet. -/
def credited (wallet : Str) : Action R → R
  | .check _ => 0
  | .settle _ => 0
  | .faucet _ amount => if wallet = lit "admin" then amount else 0

omit [LinearOrder R] in
theorem walletSum_hincrbyfloat (balances : Balances R) (wallet asset wallet' : Str)
    (increment : R) :
    walletSum (hincrbyfloat (plain R) balances wallet asset increment) wallet' =
      walletSum balances wallet' + if wallet' = wallet then increment else 0 := by
  apply Table.total_insert_of_gain
  rw [held]
  by_cases h : wallet' = wallet
  · cases balances.lookup (wallet, asset) <;> simp [h]
  · cases balances.lookup (wallet, asset) <;> simp [h, Ne.symm h]

theorem walletSum_settle (balances : Balances R) (call : Rebalance R) (wallet : Str) :
    walletSum (settle (unrounded R) balances call) wallet = walletSum balances wallet := by
  rw [settle, unrounded_toSums, walletSum_hincrbyfloat, walletSum_hincrbyfloat, add_assoc]
  split_ifs <;> simp

/-- What the second half of a call does to the balances. -/
structure Moved (before after : Balances R) (call : Rebalance R) : Prop where
  source : call.srcAsset ≠ call.dstAsset →
    getTreasuryBalance (unrounded R) after call.wallet call.srcAsset =
      getTreasuryBalance (unrounded R) before call.wallet call.srcAsset - call.amount
  destination : call.srcAsset ≠ call.dstAsset →
    getTreasuryBalance (unrounded R) after call.wallet call.dstAsset =
      getTreasuryBalance (unrounded R) before call.wallet call.dstAsset + call.amount
  same : call.srcAsset = call.dstAsset →
    getTreasuryBalance (unrounded R) after call.wallet call.srcAsset =
      getTreasuryBalance (unrounded R) before call.wallet call.srcAsset - call.amount + call.amount
  others : ∀ wallet asset, (wallet, asset) ≠ (call.wallet, call.srcAsset) →
    (wallet, asset) ≠ (call.wallet, call.dstAsset) →
    getTreasuryBalance (unrounded R) after wallet asset =
      getTreasuryBalance (unrounded R) before wallet asset

theorem moved_settle (balances : Balances R) (call : Rebalance R) :
    Moved balances (settle (unrounded R) balances call) call where
  source hne := by simp [balance_settle, hne]
  destination hne := by simp [balance_settle, Ne.symm hne]
  same he := by simp [balance_settle, he]
  others wallet asset hs hd := by
    have hs' : ¬ (wallet = call.wallet ∧ asset = call.srcAsset) := fun h => hs (by simpa using h)
    have hd' : ¬ (wallet = call.wallet ∧ asset = call.dstAsset) := fun h => hd (by simpa using h)
    simp [balance_settle, hs', hd']

/-- What each step does to the balances: a call that is rejected nothing at
all, one that passes its check nothing yet. -/
def Accounted (treasury : State R R) : Action R → Prop
  | .check call =>
      (step (unrounded R) treasury (.check call)).balances = treasury.balances ∧
        (getTreasuryBalance (unrounded R) treasury.balances call.wallet call.srcAsset < call.amount →
          checkBalance (unrounded R) treasury.balances call =
              .error (.insufficientLiquidity call.srcAsset) ∧
            step (unrounded R) treasury (.check call) = treasury)
  | .settle index => ∀ call, treasury.checked[index]? = some call →
      Moved treasury.balances (step (unrounded R) treasury (.settle index)).balances call
  | .faucet asset amount => ∀ wallet asset',
      getTreasuryBalance (unrounded R)
          (step (unrounded R) treasury (.faucet asset amount)).balances wallet asset' =
        getTreasuryBalance (unrounded R) treasury.balances wallet asset' +
          if wallet = lit "admin" ∧ asset' = asset then amount else 0

theorem accounted (treasury : State R R) (a : Action R) : Accounted treasury a := by
  cases a with
  | check call =>
    by_cases hlow :
      getTreasuryBalance (unrounded R) treasury.balances call.wallet call.srcAsset < call.amount
    · simp [Accounted, step, checkBalance, hlow]
    · simp [Accounted, step, checkBalance, hlow]
  | settle index =>
    intro call hcall
    simp only [step, hcall]
    exact moved_settle treasury.balances call
  | faucet asset amount =>
    intro wallet asset'
    exact balance_hincrbyfloat treasury.balances (lit "admin") asset wallet asset' amount

theorem walletSum_step (treasury : State R R) (a : Action R) (wallet : Str) :
    walletSum (step (unrounded R) treasury a).balances wallet =
      walletSum treasury.balances wallet + credited wallet a := by
  cases a with
  | check call =>
    rw [(accounted treasury (.check call)).1, credited, add_zero]
  | settle index =>
    simp only [step, credited, add_zero]
    split
    · rfl
    · exact walletSum_settle treasury.balances _ wallet
  | faucet asset amount =>
    exact walletSum_hincrbyfloat treasury.balances (lit "admin") asset wallet amount

/-- In every reachable state a wallet holds what the faucet gave it, whatever
calls are under way, and each step moves only what its call says. -/
theorem treasury_conserved (as : List (Action R)) :
    (∀ pre, pre <+: as → ∀ wallet,
      walletSum (run (step (unrounded R)) ⟨∅, []⟩ pre).balances wallet = (pre.map (credited wallet)).sum) ∧
    Guarded (step (unrounded R)) Accounted ⟨∅, []⟩ as := by
  refine ⟨?_, guarded_of_forall fun t a _ => accounted t a⟩
  refine prefix_induction (fun wallet => rfl) ?_
  intro pre a _ hsum wallet
  rw [run_concat, walletSum_step, hsum, List.map_append, List.sum_append, List.map_singleton,
    List.sum_singleton]

end Conservation

section Overdraft

def NonNegative (treasury : State R R) : Prop :=
  ∀ wallet asset, 0 ≤ getTreasuryBalance (unrounded R) treasury.balances wallet asset

def Positive : Action R → Prop
  | .check call => 0 < call.amount
  | .settle _ => True
  | .faucet _ amount => 0 < amount

def CheckedPositive (treasury : State R R) : Prop := ∀ call ∈ treasury.checked, 0 < call.amount

/-- A call that settles still finds the amount its check found. -/
def StillCovered (treasury : State R R) : Action R → Prop
  | .settle index => ∀ call, treasury.checked[index]? = some call → call.srcAsset ≠ call.dstAsset →
      call.amount ≤ getTreasuryBalance (unrounded R) treasury.balances call.wallet call.srcAsset
  | _ => True

theorem checkedPositive_step {treasury : State R R} (h : CheckedPositive treasury) (a : Action R)
    (ha : Positive a) : CheckedPositive (step (unrounded R) treasury a) := by
  cases a with
  | check call =>
    simp only [step]
    split
    · exact h
    · intro c hc
      obtain hc | hc := List.mem_append.mp hc
      · exact h c hc
      · rw [List.mem_singleton.mp hc]
        exact ha
  | settle index =>
    simp only [step]
    split
    · exact h
    · exact fun c hc => h c (List.mem_of_mem_eraseIdx hc)
  | faucet asset amount => exact h

variable [IsOrderedAddMonoid R]

theorem nonNegative_settle {balances : Balances R} {call : Rebalance R}
    (hb : ∀ wallet asset, 0 ≤ getTreasuryBalance (unrounded R) balances wallet asset) :
    (∀ wallet asset,
        0 ≤ getTreasuryBalance (unrounded R) (settle (unrounded R) balances call) wallet asset) ↔
      (call.srcAsset ≠ call.dstAsset →
        call.amount ≤ getTreasuryBalance (unrounded R) balances call.wallet call.srcAsset ∧
          0 ≤ getTreasuryBalance (unrounded R) balances call.wallet call.dstAsset + call.amount) := by
  constructor
  · intro h hne
    have hsrc := h call.wallet call.srcAsset
    have hdst := h call.wallet call.dstAsset
    rw [balance_settle] at hsrc hdst
    exact ⟨by simpa [hne] using hsrc, by simpa [hne.symm] using hdst⟩
  · intro h wallet asset
    rw [balance_settle]
    by_cases hs : wallet = call.wallet ∧ asset = call.srcAsset
    · obtain ⟨rfl, rfl⟩ := hs
      by_cases hd : call.srcAsset = call.dstAsset
      · simpa [hd] using hb call.wallet call.dstAsset
      · simpa [hd] using (h hd).1
    · by_cases hd : wallet = call.wallet ∧ asset = call.dstAsset
      · obtain ⟨rfl, rfl⟩ := hd
        have hne : call.srcAsset ≠ call.dstAsset := fun he => hs ⟨rfl, he.symm⟩
        simpa [hne.symm] using (h hne).2
      · simpa [hs, hd] using hb wallet asset

theorem nonNegative_settle_of_pos {balances : Balances R} {call : Rebalance R}
    (hpos : 0 < call.amount)
    (hb : ∀ wallet asset, 0 ≤ getTreasuryBalance (unrounded R) balances wallet asset) :
    (∀ wallet asset,
        0 ≤ getTreasuryBalance (unrounded R) (settle (unrounded R) balances call) wallet asset) ↔
      (call.srcAsset ≠ call.dstAsset →
        call.amount ≤ getTreasuryBalance (unrounded R) balances call.wallet call.srcAsset) := by
  rw [nonNegative_settle hb]
  have hdst := add_nonneg (hb call.wallet call.dstAsset) hpos.le
  simp [hdst]

theorem nonNegative_step {treasury : State R R} (hc : CheckedPositive treasury)
    (h : NonNegative treasury) (a : Action R) (ha : Positive a) :
    NonNegative (step (unrounded R) treasury a) ↔ StillCovered treasury a := by
  cases a with
  | check call =>
    refine iff_of_true ?_ trivial
    simp only [step]
    split <;> exact h
  | settle index =>
    simp only [step, StillCovered]
    cases hi : treasury.checked[index]? with
    | none => exact iff_of_true h (fun _ hcall => by cases hcall)
    | some call =>
      have hpos := hc call (List.mem_of_getElem? hi)
      simpa [NonNegative] using nonNegative_settle_of_pos hpos h
  | faucet asset amount =>
    refine iff_of_true ?_ trivial
    intro wallet asset'
    have hnn : 0 ≤ if wallet = lit "admin" ∧ asset' = asset then amount else 0 := by
      split_ifs
      · exact ha.le
      · exact le_rfl
    simpa [step, triggerFaucet] using add_nonneg (h wallet asset') hnn

/-- No balance ever goes below zero if and only if every settlement finds the
amount it takes. -/
theorem balances_nonnegative_iff_covered {balances : Balances R}
    (h0 : ∀ wallet asset, 0 ≤ getTreasuryBalance (unrounded R) balances wallet asset)
    {as : List (Action R)} (hpos : ∀ a ∈ as, Positive a) :
    Always (step (unrounded R)) NonNegative ⟨balances, []⟩ as ↔
      Guarded (step (unrounded R)) StillCovered ⟨balances, []⟩ as := by
  have hchecked : Always (step (unrounded R)) CheckedPositive ⟨balances, []⟩ as := by
    refine prefix_induction (by intro call hc; cases hc) ?_
    intro pre a hp hc
    rw [run_concat]
    exact checkedPositive_step hc a (hpos a (hp.subset (by simp)))
  apply prefix_iff_guarded (by simpa [NonNegative] using h0)
  intro pre a hp hn
  rw [run_concat]
  exact nonNegative_step (hchecked pre (prefix_of_concat hp)) hn a (hpos a (hp.subset (by simp)))

end Overdraft

section Examples

def swap : Rebalance ℚ := ⟨lit "admin", lit "KAS", lit "USDC", 10⟩

def funded : Balances ℚ := triggerFaucet (unrounded ℚ) ∅ (lit "KAS") 10

theorem balance_funded (wallet asset : Str) :
    getTreasuryBalance (unrounded ℚ) funded wallet asset =
      if wallet = lit "admin" ∧ asset = lit "KAS" then 10 else 0 := by
  rw [funded, triggerFaucet, unrounded_toSums, balance_hincrbyfloat, getTreasuryBalance_unrounded]
  simp [held]

theorem funded_nonnegative (wallet asset : Str) :
    0 ≤ getTreasuryBalance (unrounded ℚ) funded wallet asset := by
  rw [balance_funded]
  split_ifs <;> norm_num

theorem step_check_swap (checked : List (Rebalance ℚ)) :
    step (unrounded ℚ) ⟨funded, checked⟩ (.check swap) = ⟨funded, checked ++ [swap]⟩ := by
  have hok : checkBalance (unrounded ℚ) funded swap = .ok () := by
    simp [checkBalance, swap, balance_funded]
  simp [step, hok]

/-- Two calls check the same ten coins and then both spend them. -/
theorem checked_twice_overdraws :
    ¬ ∀ balances : Balances ℚ,
      (∀ wallet asset, 0 ≤ getTreasuryBalance (unrounded ℚ) balances wallet asset) →
      ∀ as : List (Action ℚ), (∀ a ∈ as, Positive a) →
        Always (step (unrounded ℚ)) NonNegative ⟨balances, []⟩ as := by
  intro h
  have hrun := h funded funded_nonnegative [.check swap, .check swap, .settle 0, .settle 0]
    (by simp [Positive, swap])
  have hkas := hrun.last (lit "admin") (lit "KAS")
  have hne : lit "KAS" ≠ lit "USDC" := by decide
  simp only [run_cons, run_nil, step_check_swap] at hkas
  norm_num [step, swap, balance_settle, balance_funded, hne] at hkas

theorem single_swap_covered :
    Always (step (unrounded ℚ)) NonNegative ⟨funded, []⟩ [.check swap, .settle 0] := by
  apply (balances_nonnegative_iff_covered funded_nonnegative (by simp [Positive, swap])).mpr
  simp only [guarded_cons, guarded_nil, step_check_swap]
  simp [StillCovered, swap, balance_funded]

end Examples

end StratumPool.Treasury
