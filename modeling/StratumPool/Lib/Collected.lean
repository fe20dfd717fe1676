import StratumPool.Lib.Table

namespace Lib.Collected

/-- One key and what has been entered for it so far. -/
structure Row (K V T : Type) where
  key : K
  value : Option V
  stamp : Option T

/-- A map of values and a map of their stamps. A sweep lists the keys whose
stamps are old and removes each from the values and then from the stamps;
`halfway` says that the first of these two is done for the key in front. -/
structure Maps (K V T : Type) where
  values : Table K V
  stamps : Table K T
  stale : List K
  halfway : Bool

section Steps

variable {K V T : Type} [DecidableEq K]

def write (m : Maps K V T) (k : K) (v : V) : Maps K V T := { m with values := m.values.insert k v }

def mark (m : Maps K V T) (k : K) (t : T) : Maps K V T := { m with stamps := m.stamps.insert k t }

def sweep (old : T → Bool) (m : Maps K V T) : Maps K V T :=
  { m with
    stale := (m.stamps.entries.filter (fun e => old e.2)).map (fun e => e.1)
    halfway := false }

def collect (m : Maps K V T) : Maps K V T :=
  match m.stale with
  | [] => m
  | key :: rest =>
      if m.halfway then { m with stamps := m.stamps.erase key, stale := rest, halfway := false }
      else { m with values := m.values.erase key, halfway := true }

end Steps

variable {K V T : Type} [DecidableEq K]

/-- The maps hold what the rows say, and besides them only what the sweep is
about to remove. -/
structure Holds (rows : List (Row K V T)) (m : Maps K V T) : Prop where
  nodup : (rows.map Row.key).Nodup
  value : ∀ r ∈ rows, m.values.lookup r.key = r.value
  stamp : ∀ r ∈ rows, m.stamps.lookup r.key = r.stamp
  spared : ∀ r ∈ rows, r.key ∉ m.stale
  closed : ∀ k, k ∈ m.values ∨ k ∈ m.stamps → k ∈ rows.map Row.key ∨ k ∈ m.stale
  removed : m.halfway = true → ∀ k ∈ m.stale.head?, k ∉ m.values

theorem holds_empty : Holds ([] : List (Row K V T)) ⟨∅, ∅, [], false⟩ where
  nodup := List.nodup_nil
  value := by simp
  stamp := by simp
  spared := by simp
  closed := by simp [AList.notMem_empty]
  removed := by simp

theorem Holds.perm {rows rows' : List (Row K V T)} {m : Maps K V T} (h : Holds rows m)
    (hp : rows.Perm rows') : Holds rows' m where
  nodup := (hp.map _).nodup_iff.mp h.nodup
  value r hr := h.value r (hp.mem_iff.mpr hr)
  stamp r hr := h.stamp r (hp.mem_iff.mpr hr)
  spared r hr := h.spared r (hp.mem_iff.mpr hr)
  closed k hk := (h.closed k hk).imp_left (hp.map _).mem_iff.mp
  removed := h.removed

/-- A key that is nowhere gets a row of its own. -/
theorem Holds.add {rows : List (Row K V T)} {m : Maps K V T} (h : Holds rows m) {k : K}
    (hrows : k ∉ rows.map Row.key) (hvalues : k ∉ m.values) (hstamps : k ∉ m.stamps)
    (hstale : k ∉ m.stale) : Holds (⟨k, none, none⟩ :: rows) m where
  nodup := List.nodup_cons.mpr ⟨hrows, h.nodup⟩
  value := List.forall_mem_cons.mpr ⟨AList.lookup_eq_none.mpr hvalues, h.value⟩
  stamp := List.forall_mem_cons.mpr ⟨AList.lookup_eq_none.mpr hstamps, h.stamp⟩
  spared := List.forall_mem_cons.mpr ⟨hstale, h.spared⟩
  closed k' hk' := (h.closed k' hk').imp_left (List.mem_cons_of_mem _)
  removed := h.removed

/-- The keys of the other rows are other keys. -/
theorem Holds.other {rows : List (Row K V T)} {r : Row K V T} {m : Maps K V T}
    (h : Holds (r :: rows) m) : ∀ r' ∈ rows, r'.key ≠ r.key := by
  intro r' hr' heq
  apply (List.nodup_cons.mp h.nodup).1
  rw [← heq]
  exact List.mem_map_of_mem hr'

theorem Holds.write {rows : List (Row K V T)} {r : Row K V T} {m : Maps K V T}
    (h : Holds (r :: rows) m) (v : V) :
    Holds ({ r with value := some v } :: rows) (write m r.key v) where
  nodup := h.nodup
  value := by
    refine List.forall_mem_cons.mpr ⟨AList.lookup_insert _, ?_⟩
    intro r' hr'
    rw [Collected.write, AList.lookup_insert_ne (h.other r' hr')]
    exact h.value r' (List.mem_cons_of_mem _ hr')
  stamp := List.forall_mem_cons.mpr (List.forall_mem_cons.mp h.stamp)
  spared := List.forall_mem_cons.mpr (List.forall_mem_cons.mp h.spared)
  closed := by
    rintro k (hk | hk)
    · obtain rfl | hk := (AList.mem_insert _).mp hk
      · exact .inl List.mem_cons_self
      · exact h.closed k (.inl hk)
    · exact h.closed k (.inr hk)
  removed := by
    intro hhalf k hk hmem
    obtain rfl | hmem := (AList.mem_insert _).mp hmem
    · exact h.spared r List.mem_cons_self (List.mem_of_mem_head? hk)
    · exact h.removed hhalf k hk hmem

theorem Holds.mark {rows : List (Row K V T)} {r : Row K V T} {m : Maps K V T}
    (h : Holds (r :: rows) m) (t : T) :
    Holds ({ r with stamp := some t } :: rows) (mark m r.key t) where
  nodup := h.nodup
  value := List.forall_mem_cons.mpr (List.forall_mem_cons.mp h.value)
  stamp := by
    refine List.forall_mem_cons.mpr ⟨AList.lookup_insert _, ?_⟩
    intro r' hr'
    rw [Collected.mark, AList.lookup_insert_ne (h.other r' hr')]
    exact h.stamp r' (List.mem_cons_of_mem _ hr')
  spared := List.forall_mem_cons.mpr (List.forall_mem_cons.mp h.spared)
  closed := by
    rintro k (hk | hk)
    · exact h.closed k (.inl hk)
    · obtain rfl | hk := (AList.mem_insert _).mp hk
      · exact .inl List.mem_cons_self
      · exact h.closed k (.inr hk)
  removed := h.removed

theorem mem_sweep {old : T → Bool} {m : Maps K V T} {k : K} :
    k ∈ (sweep old m).stale ↔ ∃ t, m.stamps.lookup k = some t ∧ old t = true := by
  simp only [sweep, List.mem_map, List.mem_filter]
  constructor
  · rintro ⟨⟨k', t⟩, ⟨he, hold⟩, rfl⟩
    exact ⟨t, (Table.mem_entries_iff _ _ _).mp he, hold⟩
  · rintro ⟨t, ht, hold⟩
    exact ⟨⟨k, t⟩, ⟨(Table.mem_entries_iff _ _ _).mpr ht, hold⟩, rfl⟩

/-- A sweep takes over the rows whose stamps are old. -/
theorem Holds.sweep {rows : List (Row K V T)} {m : Maps K V T} (h : Holds rows m)
    (hidle : m.stale = []) (old : T → Bool) :
    Holds (rows.filter (fun r => !r.stamp.any old)) (sweep old m) where
  nodup := h.nodup.sublist (List.filter_sublist.map _)
  value r hr := h.value r (List.mem_of_mem_filter hr)
  stamp r hr := h.stamp r (List.mem_of_mem_filter hr)
  spared := by
    intro r hr hstale
    obtain ⟨hmem, hyoung⟩ := List.mem_filter.mp hr
    obtain ⟨t, ht, hold⟩ := mem_sweep.mp hstale
    rw [h.stamp r hmem] at ht
    simp [ht, hold] at hyoung
  closed := by
    intro k hk
    obtain hrow | hstale := h.closed k hk
    · obtain ⟨r, hr, rfl⟩ := List.mem_map.mp hrow
      cases hold : r.stamp.any old with
      | false => exact .inl (List.mem_map_of_mem (List.mem_filter.mpr ⟨hr, by simp [hold]⟩))
      | true =>
        obtain ⟨t, ht, hold⟩ := (Option.any_eq_true _ _).mp hold
        exact .inr (mem_sweep.mpr ⟨t, (h.stamp r hr).trans ht, hold⟩)
    · rw [hidle] at hstale
      cases hstale
  removed := by simp [Collected.sweep]

/-- The removals of a sweep do not touch the rows. -/
theorem Holds.collect {rows : List (Row K V T)} {m : Maps K V T} (h : Holds rows m) :
    Holds rows (collect m) := by
  rw [Collected.collect]
  split
  · exact h
  · rename_i key rest hstale
    have hother : ∀ r ∈ rows, r.key ≠ key := by
      intro r hr heq
      apply h.spared r hr
      rw [hstale, heq]
      exact List.mem_cons_self
    split
    · rename_i hhalf
      have hremoved : key ∉ m.values := h.removed hhalf key (by rw [hstale]; rfl)
      refine ⟨h.nodup, h.value, ?_, ?_, ?_, by simp⟩
      · intro r hr
        rw [AList.lookup_erase_ne (hother r hr)]
        exact h.stamp r hr
      · intro r hr hmem
        apply h.spared r hr
        rw [hstale]
        exact List.mem_cons_of_mem _ hmem
      · intro k hk
        have hne : k ≠ key := by
          rintro rfl
          obtain hk | hk := hk
          · exact hremoved hk
          · exact (AList.mem_erase.mp hk).1 rfl
        obtain hrow | hmem := h.closed k (hk.imp_right (fun hk => (AList.mem_erase.mp hk).2))
        · exact .inl hrow
        · rw [hstale] at hmem
          exact .inr ((List.mem_cons.mp hmem).resolve_left hne)
    · refine ⟨h.nodup, ?_, h.stamp, h.spared, ?_, ?_⟩
      · intro r hr
        rw [AList.lookup_erase_ne (hother r hr)]
        exact h.value r hr
      · intro k hk
        exact h.closed k (hk.imp_left (fun hk => (AList.mem_erase.mp hk).2))
      · intro _ k hk hmem
        rw [hstale] at hk
        cases hk
        exact (AList.mem_erase.mp hmem).1 rfl

/-- With no sweep under way and every row complete, the two maps have the same
keys. -/
theorem Holds.same_keys {rows : List (Row K V T)} {m : Maps K V T} (h : Holds rows m)
    (hidle : m.stale = []) (hfull : ∀ r ∈ rows, r.value.isSome ∧ r.stamp.isSome) (k : K) :
    k ∈ m.values ↔ k ∈ m.stamps := by
  have hrow : k ∈ m.values ∨ k ∈ m.stamps → k ∈ m.values ∧ k ∈ m.stamps := by
    intro hk
    obtain hmem | hmem := h.closed k hk
    · obtain ⟨r, hr, rfl⟩ := List.mem_map.mp hmem
      obtain ⟨hvalue, hstamp⟩ := hfull r hr
      rw [← h.value r hr] at hvalue
      rw [← h.stamp r hr] at hstamp
      exact ⟨AList.lookup_isSome.mp hvalue, AList.lookup_isSome.mp hstamp⟩
    · rw [hidle] at hmem
      cases hmem
  exact ⟨fun hk => (hrow (.inl hk)).2, fun hk => (hrow (.inr hk)).1⟩

end Lib.Collected
