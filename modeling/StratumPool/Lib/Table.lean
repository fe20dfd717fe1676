import Mathlib.Data.List.AList
import Mathlib.Algebra.BigOperators.Group.List.Basic
import Mathlib.Algebra.Order.BigOperators.Group.List
import Mathlib.Algebra.Order.Group.Multiset

namespace Lib

/-- A finite map with one entry for each key. The order of the entries says
nothing: a loop over the map takes them in an order of its own. -/
abbrev Table (K V : Type) := AList (fun _ : K => V)

/-- The order in which one loop over a hash map visits its entries. -/
structure IterOrder (α : Type) where
  apply : List α → List α
  perm : ∀ l, (apply l).Perm l

def IterOrder.asStored (α : Type) : IterOrder α := ⟨id, fun _ => .rfl⟩

theorem IterOrder.eq_nil_iff {α : Type} (order : IterOrder α) (l : List α) :
    order.apply l = [] ↔ l = [] := by
  rw [← List.length_eq_zero_iff, (order.perm l).length_eq, List.length_eq_zero_iff]

theorem IterOrder.isEmpty_apply {α : Type} (order : IterOrder α) (l : List α) :
    (order.apply l).isEmpty = l.isEmpty := by
  rw [Bool.eq_iff_iff, List.isEmpty_iff, List.isEmpty_iff, order.eq_nil_iff]

namespace Table

variable {K V W M : Type}

def keepSome (f : K → V → Option W) (l : List (Sigma fun _ : K => V)) :
    List (Sigma fun _ : K => W) :=
  l.filterMap (fun e => (f e.1 e.2).map (Sigma.mk e.1))

theorem keys_keepSome (f : K → V → Option W) (l : List (Sigma fun _ : K => V)) :
    (keepSome f l).keys.Sublist l.keys := by
  induction l with
  | nil => exact List.Sublist.slnil
  | cons e l ih =>
    cases hf : f e.1 e.2 with
    | none => simpa [keepSome, hf] using ih.cons e.1
    | some w => simpa [keepSome, hf] using ih.cons_cons e.1

/-- Rewrite every value, dropping the entries the function gives nothing for. -/
def filterMapVals (f : K → V → Option W) (t : Table K V) : Table K W :=
  ⟨keepSome f t.entries, (keys_keepSome f t.entries).nodup t.nodupKeys⟩

section Lookup

variable [DecidableEq K]

theorem mem_entries_iff (t : Table K V) (k : K) (v : V) :
    ⟨k, v⟩ ∈ t.entries ↔ t.lookup k = some v := AList.mem_lookup_iff.symm

theorem lookup_filterMapVals (f : K → V → Option W) (t : Table K V) (k : K) :
    (filterMapVals f t).lookup k = (t.lookup k).bind (f k) := by
  apply Option.ext
  intro w
  rw [← mem_entries_iff, Option.bind_eq_some_iff]
  simp only [filterMapVals, keepSome, List.mem_filterMap, Option.map_eq_some_iff]
  constructor
  · rintro ⟨⟨k', v⟩, hm, w', hf, he⟩
    cases he
    exact ⟨v, (mem_entries_iff t k' v).mp hm, hf⟩
  · rintro ⟨v, hv, hf⟩
    exact ⟨⟨k, v⟩, (mem_entries_iff t k v).mpr hv, w, hf, rfl⟩

end Lookup

/-- The sum of one quantity over all entries. -/
def total [AddCommMonoid M] (φ : K → V → M) (t : Table K V) : M :=
  (t.entries.map (fun e => φ e.1 e.2)).sum

section Total

variable [AddCommMonoid M]

theorem total_add (φ ψ : K → V → M) (t : Table K V) :
    total (fun k v => φ k v + ψ k v) t = total φ t + total ψ t := List.sum_map_add

theorem total_filterMapVals (φ : K → W → M) (f : K → V → Option W) (t : Table K V) :
    total φ (filterMapVals f t) = total (fun k v => (f k v).elim 0 (φ k)) t := by
  simp only [total, filterMapVals]
  induction t.entries with
  | nil => rfl
  | cons e l ih =>
    cases hf : f e.1 e.2 with
    | none => simpa [keepSome, hf] using ih
    | some w => simpa [keepSome, hf] using congrArg (φ e.1 w + ·) ih

theorem sum_order (φ : (Sigma fun _ : K => V) → M) (order : IterOrder (Sigma fun _ : K => V))
    (t : Table K V) : ((order.apply t.entries).map φ).sum = (t.entries.map φ).sum :=
  ((order.perm t.entries).map φ).sum_eq

omit [AddCommMonoid M] in
/-- The lists of all entries, in whatever order a loop appends them. -/
theorem flatMap_order {β : Type} (f : K → V → List β) (order : IterOrder (Sigma fun _ : K => V))
    (t : Table K V) :
    ((order.apply t.entries).flatMap (fun e => f e.1 e.2) : Multiset β) =
      total (fun k v => (f k v : Multiset β)) t := by
  rw [total, ← sum_order _ order]
  induction order.apply t.entries with
  | nil => rfl
  | cons e l ih => rw [List.flatMap_cons, ← Multiset.coe_add, ih, List.map_cons, List.sum_cons]

variable [DecidableEq K]

omit [AddCommMonoid M] [DecidableEq K] in
theorem nodupKeys_order (order : IterOrder (Sigma fun _ : K => V)) (t : Table K V) :
    (order.apply t.entries).NodupKeys :=
  (List.perm_nodupKeys (order.perm t.entries)).mpr t.nodupKeys

omit [AddCommMonoid M] in
theorem dlookup_order (order : IterOrder (Sigma fun _ : K => V)) (t : Table K V) (k : K) :
    (order.apply t.entries).dlookup k = t.lookup k :=
  List.perm_dlookup k (nodupKeys_order order t) (order.perm t.entries)

omit [AddCommMonoid M] in
/-- Two loops over maps that hold the same visit the same entries. -/
theorem order_perm {t u : Table K V} (h : ∀ k, t.lookup k = u.lookup k)
    (order other : IterOrder (Sigma fun _ : K => V)) :
    (order.apply t.entries).Perm (other.apply u.entries) := by
  have hp : t.entries.Perm u.entries := by
    apply List.lookup_ext t.nodupKeys u.nodupKeys
    intro k v
    rw [← AList.lookup, ← AList.lookup, h k]
  exact (order.perm t.entries).trans (hp.trans (other.perm u.entries).symm)

omit [AddCommMonoid M] in
/-- What a loop appends for one key does not depend on when it meets the key. -/
theorem filter_flatMap {β : Type} (f : K → V → List β) (keyOf : β → K)
    (hf : ∀ k v, ∀ b ∈ f k v, keyOf b = k) {l : List (Sigma fun _ : K => V)} (hl : l.NodupKeys)
    (k : K) :
    (l.flatMap (fun e => f e.1 e.2)).filter (fun b => keyOf b = k) =
      (l.dlookup k).elim [] (f k) := by
  induction l with
  | nil => rfl
  | cons e l ih =>
    obtain ⟨hnew, hrest⟩ := List.nodupKeys_cons.mp hl
    rw [List.flatMap_cons, List.filter_append, ih hrest]
    by_cases hk : k = e.1
    · subst hk
      have hall : (f e.1 e.2).filter (fun b => keyOf b = e.1) = f e.1 e.2 := by
        apply List.filter_eq_self.mpr
        intro b hb
        simp [hf e.1 e.2 b hb]
      rw [hall, List.dlookup_eq_none.mpr hnew, List.dlookup_cons_eq]
      exact List.append_nil _
    · have hnone : (f e.1 e.2).filter (fun b => keyOf b = k) = [] := by
        apply List.filter_eq_nil_iff.mpr
        intro b hb
        simp [hf e.1 e.2 b hb, Ne.symm hk]
      rw [hnone, List.dlookup_cons_ne _ _ hk, List.nil_append]

theorem total_congr {φ ψ : K → V → M} {t : Table K V}
    (h : ∀ k v, t.lookup k = some v → φ k v = ψ k v) : total φ t = total ψ t := by
  refine congrArg List.sum (List.map_congr_left ?_)
  rintro ⟨k, v⟩ hm
  exact h k v ((mem_entries_iff t k v).mp hm)

theorem total_eq_zero {φ : K → V → M} {t : Table K V}
    (h : ∀ k v, t.lookup k = some v → φ k v = 0) : total φ t = 0 := by
  have hzero : total φ t = total (fun _ _ => 0) t := total_congr h
  simpa [total] using hzero

/-- A total depends on what the map holds, not on how its entries are stored. -/
theorem total_ext (φ : K → V → M) {t u : Table K V} (h : ∀ k, t.lookup k = u.lookup k) :
    total φ t = total φ u := by
  have hp : t.entries.Perm u.entries := by
    apply List.lookup_ext t.nodupKeys u.nodupKeys
    intro k v
    rw [← AList.lookup, ← AList.lookup, h k]
  exact (hp.map _).sum_eq

theorem total_insert (φ : K → V → M) (k : K) (v : V) (t : Table K V) :
    total φ (t.insert k v) = φ k v + total φ (t.erase k) := by
  rw [total, total, AList.entries_insert, List.map_cons, List.sum_cons]
  rfl

theorem total_insert_empty (φ : K → V → M) (k : K) (v : V) : total φ (AList.insert k v ∅) = φ k v := by
  simp [total]

theorem total_of_lookup (φ : K → V → M) {k : K} {v : V} {t : Table K V}
    (h : t.lookup k = some v) : total φ t = φ k v + total φ (t.erase k) := by
  rw [← total_insert]
  apply total_ext φ
  intro j
  by_cases hj : j = k
  · rw [hj, h, AList.lookup_insert]
  · rw [AList.lookup_insert_ne hj]

theorem total_of_notMem (φ : K → V → M) {k : K} {t : Table K V} (h : t.lookup k = none) :
    total φ t = total φ (t.erase k) := by
  apply total_ext φ
  intro j
  by_cases hj : j = k
  · rw [hj, h, AList.lookup_erase]
  · rw [AList.lookup_erase_ne hj]

/-- Writing one entry moves the total by what that entry gained. -/
theorem total_insert_of_gain (φ : K → V → M) (k : K) (v : V) (t : Table K V) (gain : M)
    (h : φ k v = (t.lookup k).elim 0 (φ k) + gain) :
    total φ (t.insert k v) = total φ t + gain := by
  rw [total_insert, h]
  cases ht : t.lookup k with
  | none =>
    rw [total_of_notMem φ ht]
    simp [add_comm]
  | some u =>
    rw [total_of_lookup φ ht]
    simp [add_assoc, add_comm]

end Total

section Order

variable [DecidableEq K] [AddCommMonoid M] [PartialOrder M] [IsOrderedAddMonoid M]

theorem total_mono {φ ψ : K → V → M} {t : Table K V}
    (h : ∀ k v, t.lookup k = some v → φ k v ≤ ψ k v) : total φ t ≤ total ψ t := by
  apply List.sum_le_sum
  rintro ⟨k, v⟩ hm
  exact h k v ((mem_entries_iff t k v).mp hm)

theorem total_nonneg {φ : K → V → M} {t : Table K V}
    (h : ∀ k v, t.lookup k = some v → 0 ≤ φ k v) : 0 ≤ total φ t := by
  apply List.sum_nonneg
  intro m hm
  obtain ⟨⟨k, v⟩, he, rfl⟩ := List.mem_map.mp hm
  exact h k v ((mem_entries_iff t k v).mp he)

/-- A total of nonnegative parts is zero only if each of them is. -/
theorem total_eq_zero_iff {φ : K → V → M} {t : Table K V}
    (h : ∀ k v, t.lookup k = some v → 0 ≤ φ k v) :
    total φ t = 0 ↔ ∀ k v, t.lookup k = some v → φ k v = 0 := by
  constructor
  · intro h0 k v hl
    have hrest : 0 ≤ total φ (t.erase k) := by
      apply total_nonneg
      intro j w hj
      by_cases hjk : j = k
      · rw [hjk, AList.lookup_erase] at hj
        cases hj
      · rw [AList.lookup_erase_ne hjk] at hj
        exact h j w hj
    rw [total_of_lookup φ hl] at h0
    exact ((add_eq_zero_iff_of_nonneg (h k v hl) hrest).mp h0).1
  · exact total_eq_zero

end Order

end Table

end Lib
