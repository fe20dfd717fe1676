import StratumPool.Collector
import StratumPool.Lib.Serial

namespace StratumPool.Reissue

open Lib Lib.Runs StratumPool.Text StratumPool.Kaspa StratumPool.Jobs StratumPool.Registry
open Lib.Serial (IssuedAt)
open StratumPool.Collector (FreshJob NothingLeaks now_step)
open StratumPool.Server (tameCrates template)

/-- The registry with the times at which the ids were given out, the first one
first, and the times at which the running calls began. -/
structure State (Body : Type) where
  registry : Collector.State Body
  issuedAt : List Nat
  startedAt : List Nat

def boot (Body : Type) : State Body := ⟨Collector.boot Body, [], []⟩

section Steps

variable {Body : Type} (crates : Crates)

/-- The header of a block that gets an id. -/
def converted (block : RpcBlock Body) : Option (RpcBlockHeader × Header) :=
  block.header.bind (fun rpcHeader => (consensusHeader crates rpcHeader).map (rpcHeader, ·))

def noteIssue (state : State Body) : Jobs.Action Body → List Nat
  | .newBlock block =>
      match converted crates block with
      | some _ => state.issuedAt ++ [state.registry.manager.now]
      | none => state.issuedAt
  | _ => state.issuedAt

def noteStart (state : State Body) : Jobs.Action Body → List Nat
  | .newBlock block =>
      match converted crates block with
      | some _ => state.startedAt ++ [state.registry.manager.now]
      | none => state.startedAt
  | .advance index =>
      match state.registry.manager.calls[index]? with
      | some ⟨_, _, .cached⟩ => state.startedAt.eraseIdx index
      | _ => state.startedAt
  | _ => state.startedAt

def step (state : State Body) (a : Jobs.Action Body) : State Body :=
  { registry := Collector.step crates state.registry a
    issuedAt := noteIssue crates state a
    startedAt := noteStart crates state a }

/-- No call has been running for longer than `late`, and the last sweep began no
longer ago. -/
structure Timely (late : Nat) (state : State Body) : Prop where
  swept : state.registry.manager.now ≤ state.registry.scannedAt + late
  called : ∀ t ∈ state.startedAt, state.registry.manager.now ≤ t + late

instance (late : Nat) (state : State Body) : Decidable (Timely late state) :=
  decidable_of_iff (_ ∧ _) ⟨fun h => ⟨h.1, h.2⟩, fun h => ⟨h.swept, h.called⟩⟩

/-- The block 65536 ids before this one came more than `window` ago. -/
def Spaced (window : Nat) (state : State Body) : Jobs.Action Body → Prop
  | .newBlock _ => Serial.Spaced 65536 window state.registry.manager.now state.issuedAt
  | _ => True

/-- Every job that no sweep has seen older than 120 seconds is found with what
it was built from, under an id of its own, and nothing else stays. -/
structure Sound (state : Collector.State Body) : Prop where
  found : ∀ e ∈ state.log.young,
    state.manager.activeJobs.lookup e.job.jobId = some e.entry ∧ Built crates e.job e.entry
  distinct : (state.log.young.map (fun e => e.job.jobId)).Nodup
  leaks : NothingLeaks state

end Steps

section Ids

/-- The id of the n-th block, counted from zero. -/
def jobIdOf (n : Nat) : Str := lowHex (UInt64.ofNat (n + 1))

theorem jobIdOf_eq_iff (n m : Nat) : jobIdOf n = jobIdOf m ↔ n % 65536 = m % 65536 := by
  rw [jobIdOf, jobIdOf, lowHex_eq_iff, UInt64.toNat_ofNat', UInt64.toNat_ofNat']
  omega

def ids {Body : Type} (calls : List (Call Body)) : List Str :=
  calls.map (fun call => call.job.jobId)

/-- The id was given out at the time `t`, to some block. -/
def HeldSince (issuedAt : List Nat) (id : Str) (t : Nat) : Prop :=
  ∃ n, IssuedAt issuedAt n t ∧ id = jobIdOf n

theorem HeldSince.append {issuedAt : List Nat} {id : Str} {t : Nat}
    (h : HeldSince issuedAt id t) (times : List Nat) : HeldSince (issuedAt ++ times) id t := by
  obtain ⟨n, hn, hid⟩ := h
  exact ⟨n, hn.append times, hid⟩

end Ids

section Dates

variable {Body : Type} (crates : Crates)

/-- How old what the registry holds can be. -/
structure Dated (late : Nat) (state : State Body) : Prop where
  counter : state.registry.manager.jobCounter = UInt64.ofNat (state.issuedAt.length + 1)
  ordered : state.issuedAt.Pairwise (· ≤ ·)
  past : ∀ t ∈ state.issuedAt, t ≤ state.registry.manager.now
  started :
    List.Forall₂ (HeldSince state.issuedAt) (ids state.registry.manager.calls) state.startedAt
  stamped : ∀ id t, state.registry.manager.jobTimestamps.lookup id = some t →
    ∃ t0, HeldSince state.issuedAt id t0 ∧ t ≤ t0 + late
  stale : ∀ id ∈ state.registry.manager.sweep.staleKeys,
    ∃ t0, HeldSince state.issuedAt id t0 ∧ state.registry.scannedAt ≤ t0 + 120 * 1000 + 2 * late

theorem dated_boot (late : Nat) : Dated late (boot Body) where
  counter := rfl
  ordered := List.Pairwise.nil
  past := by simp [boot]
  started := List.Forall₂.nil
  stamped := by simp [boot, Collector.boot, Jobs.new]
  stale := by simp [boot, Collector.boot, Jobs.new]

theorem newBlock_eq (manager : JobManager Body) (block : RpcBlock Body) :
    newBlock crates manager block =
      match converted crates block with
      | some (rpcHeader, header) =>
          { manager with
            jobCounter := manager.jobCounter + 1
            calls := manager.calls ++ [⟨⟨lowHex manager.jobCounter, notifyPayload crates
              (lowHex manager.jobCounter) header rpcHeader.timestamp.toUInt64⟩,
              (header, block), .converted⟩] }
      | none => manager := by
  rw [newBlock, converted]
  cases block.header with
  | none => rfl
  | some rpcHeader =>
    simp only [Option.bind_some]
    cases consensusHeader crates rpcHeader with
    | none => rfl
    | some header => rfl

variable {crates} {late : Nat} {state : State Body}

/-- A stamped job was no older than 120 seconds at the last scan, unless a sweep
is removing it. -/
theorem stamp_recent (h : Collector.Inv crates state.registry)
    (hidle : state.registry.manager.sweep.staleKeys = []) {id : Str} {t : Nat}
    (hstamp : state.registry.manager.jobTimestamps.lookup id = some t) :
    state.registry.scannedAt ≤ t + 120 * 1000 := by
  have hmem : id ∈ state.registry.manager.jobTimestamps :=
    AList.lookup_isSome.mp (by rw [hstamp]; rfl)
  obtain hrow | hstale := h.kept.holds.closed id (.inr hmem)
  · obtain ⟨r, hr, rfl⟩ := List.mem_map.mp hrow
    have hr_stamp : r.stamp = some t := (h.kept.holds.stamp r hr).symm.trans hstamp
    obtain hcall | hyoung := List.mem_append.mp hr
    · obtain ⟨call, -, hrowOf⟩ := List.mem_filterMap.mp hcall
      rw [rowOf] at hrowOf
      split at hrowOf <;> cases hrowOf <;> cases hr_stamp
    · obtain ⟨e, he, rfl⟩ := List.mem_map.mp hyoung
      cases hr_stamp
      exact h.young e he
  · change id ∈ state.registry.manager.sweep.staleKeys at hstale
    rw [hidle] at hstale
    cases hstale

theorem dated_newBlock (h : Dated late state) (block : RpcBlock Body) :
    Dated late (step crates state (.newBlock block)) := by
  cases hconverted : converted crates block with
  | none =>
    have hstep : step crates state (.newBlock block) = state := by
      simp only [step, Collector.step, Jobs.step, newBlock_eq, noteIssue, noteStart, hconverted]
      rfl
    rw [hstep]
    exact h
  | some headers =>
    obtain ⟨rpcHeader, header⟩ := headers
    simp only [step, Collector.step, Jobs.step, newBlock_eq, noteIssue, noteStart, hconverted,
      Collector.scanTime]
    have hnext : HeldSince (state.issuedAt ++ [state.registry.manager.now])
        (lowHex state.registry.manager.jobCounter) state.registry.manager.now :=
      ⟨state.issuedAt.length, Serial.issuedAt_last _ _, by rw [h.counter, jobIdOf]⟩
    refine ⟨?_, ?_, ?_, ?_, ?_, ?_⟩
    · rw [h.counter, List.length_append, List.length_singleton, UInt64.ofNat_add (_ + 1)]
      rfl
    · apply List.pairwise_append.mpr
      refine ⟨h.ordered, List.pairwise_singleton _ _, ?_⟩
      intro t ht u hu
      rw [List.mem_singleton.mp hu]
      exact h.past t ht
    · intro t ht
      obtain ht | ht := List.mem_append.mp ht
      · exact h.past t ht
      · exact (List.mem_singleton.mp ht).le
    · rw [ids, List.map_append]
      apply List.rel_append
      · exact h.started.imp (fun id t hheld => hheld.append _)
      · exact List.Forall₂.cons hnext List.Forall₂.nil
    · intro id t ht
      obtain ⟨t0, hheld, hle⟩ := h.stamped id t ht
      exact ⟨t0, hheld.append _, hle⟩
    · intro id hid
      obtain ⟨t0, hheld, hle⟩ := h.stale id hid
      exact ⟨t0, hheld.append _, hle⟩

theorem exists_right {α β : Type} {R : α → β → Prop} {xs : List α} {ys : List β}
    (h : List.Forall₂ R xs ys) {x : α} (hx : x ∈ xs) : ∃ y ∈ ys, R x y := by
  induction h with
  | nil => cases hx
  | cons hr _ ih =>
    obtain rfl | hx := List.mem_cons.mp hx
    · exact ⟨_, List.mem_cons_self, hr⟩
    · obtain ⟨y, hy, hxy⟩ := ih hx
      exact ⟨y, List.mem_cons_of_mem _ hy, hxy⟩

theorem ids_set {calls : List (Call Body)} {index : Nat} {call : Call Body}
    (h : calls[index]? = some call) (stage : Stage) :
    ids (calls.set index { call with stage }) = ids calls := by
  obtain ⟨before, after, hcalls, hset, -⟩ := split_calls h
  rw [hset, hcalls]
  simp [ids]

theorem dated_advance (h : Dated late state) (hcalled : Timely late state) (index : Nat) :
    Dated late (step crates state (.advance index)) := by
  cases hcall : state.registry.manager.calls[index]? with
  | none =>
    have hstep : step crates state (.advance index) = state := by
      simp only [step, Collector.step, Jobs.step, advance, noteIssue, noteStart, follow, hcall]
      rfl
    rw [hstep]
    exact h
  | some call =>
    obtain ⟨job, entry, stage⟩ := call
    have hset := ids_set hcall
    cases stage with
    | converted =>
      simp only [step, Collector.step, Jobs.step, advance, noteIssue, noteStart, hcall]
      exact ⟨h.counter, h.ordered, h.past, (hset .inserted).symm ▸ h.started, h.stamped, h.stale⟩
    | inserted =>
      simp only [step, Collector.step, Jobs.step, advance, noteIssue, noteStart, hcall]
      refine ⟨h.counter, h.ordered, h.past, (hset .stamped).symm ▸ h.started, ?_, h.stale⟩
      intro id t ht
      by_cases hid : id = job.jobId
      · subst hid
        rw [AList.lookup_insert] at ht
        cases ht
        have hrunning : job.jobId ∈ ids state.registry.manager.calls :=
          List.mem_map_of_mem (f := fun call : Call Body => call.job.jobId)
            (List.mem_of_getElem? hcall)
        obtain ⟨t0, ht0, hheld⟩ := exists_right h.started hrunning
        exact ⟨t0, hheld, hcalled.called t0 ht0⟩
      · rw [AList.lookup_insert_ne hid] at ht
        exact h.stamped id t ht
    | stamped =>
      simp only [step, Collector.step, Jobs.step, advance, noteIssue, noteStart, hcall]
      exact ⟨h.counter, h.ordered, h.past, (hset .cached).symm ▸ h.started, h.stamped, h.stale⟩
    | cached =>
      simp only [step, Collector.step, Jobs.step, advance, noteIssue, noteStart, hcall]
      refine ⟨h.counter, h.ordered, h.past, ?_, h.stamped, h.stale⟩
      rw [List.eraseIdx_eq_take_drop_succ, List.eraseIdx_eq_take_drop_succ, ids, List.map_append,
        List.map_take, List.map_drop]
      apply List.rel_append
      · exact List.forall₂_take index h.started
      · exact List.forall₂_drop (index + 1) h.started

theorem dated_scan (h : Dated late state) (hinv : Collector.Inv crates state.registry)
    (htimely : Timely late state) : Dated late (step crates state .scan) := by
  cases hidle : state.registry.manager.sweep.staleKeys.isEmpty with
  | false =>
    have hstep : step crates state .scan = state := by
      simp only [step, Collector.step, Jobs.step, Jobs.scan, noteIssue, noteStart, follow,
        Collector.scanTime, hidle]
      rfl
    rw [hstep]
    exact h
  | true =>
    simp only [step, Collector.step, Jobs.step, Jobs.scan, noteIssue, noteStart,
      Collector.scanTime, hidle, if_true]
    refine ⟨h.counter, h.ordered, h.past, h.started, h.stamped, ?_⟩
    intro id hid
    have hlisted : id ∈ (Collected.sweep (isOld state.registry.manager.now)
      (maps state.registry.manager)).stale := hid
    obtain ⟨t, ht, -⟩ := Collected.mem_sweep.mp hlisted
    obtain ⟨t0, hheld, hle⟩ := h.stamped id t ht
    refine ⟨t0, hheld, ?_⟩
    have hrecent := stamp_recent hinv (List.isEmpty_iff.mp hidle) ht
    have hswept := htimely.swept
    simp only
    omega

theorem dated_collect (h : Dated late state) : Dated late (step crates state .collect) := by
  simp only [step, Collector.step, Jobs.step, noteIssue, noteStart, Collector.scanTime]
  rw [collect]
  split
  · exact ⟨h.counter, h.ordered, h.past, h.started, h.stamped, h.stale⟩
  · rename_i key rest hstale
    split
    · refine ⟨h.counter, h.ordered, h.past, h.started, ?_, ?_⟩
      · intro id t ht
        by_cases hid : id = key
        · rw [hid, AList.lookup_erase] at ht
          cases ht
        · rw [AList.lookup_erase_ne hid] at ht
          exact h.stamped id t ht
      · intro id hid
        exact h.stale id (hstale ▸ List.mem_cons_of_mem key hid)
    · refine ⟨h.counter, h.ordered, h.past, h.started, h.stamped, ?_⟩
      intro id hid
      exact h.stale id (hstale ▸ hid)

theorem dated_step (h : Dated late state) (hinv : Collector.Inv crates state.registry)
    (htimely : Timely late state) (a : Jobs.Action Body) : Dated late (step crates state a) := by
  cases a with
  | newBlock block => exact dated_newBlock h block
  | advance index => exact dated_advance h htimely index
  | scan => exact dated_scan h hinv htimely
  | collect => exact dated_collect h
  | wait millis =>
    refine ⟨h.counter, h.ordered, ?_, h.started, h.stamped, h.stale⟩
    intro t ht
    exact (h.past t ht).trans (Nat.le_add_right _ _)

/-- An id that is taken was given out not long ago. -/
theorem taken_since (h : Dated late state) (hinv : Collector.Inv crates state.registry)
    (htimely : Timely late state) {id : Str} (htaken : Taken state.registry.manager id) :
    ∃ t0, HeldSince state.issuedAt id t0 ∧
      state.registry.manager.now ≤ t0 + (120 * 1000 + 3 * late) := by
  have hswept := htimely.swept
  have hcalled : ∀ call ∈ state.registry.manager.calls, ∃ t0,
      HeldSince state.issuedAt call.job.jobId t0 ∧
        state.registry.manager.now ≤ t0 + (120 * 1000 + 3 * late) := by
    intro call hcall
    obtain ⟨t0, ht0, hheld⟩ := exists_right h.started
      (List.mem_map_of_mem (f := fun call : Call Body => call.job.jobId) hcall)
    have hle := htimely.called t0 ht0
    exact ⟨t0, hheld, by omega⟩
  have hstale : id ∈ state.registry.manager.sweep.staleKeys → ∃ t0,
      HeldSince state.issuedAt id t0 ∧
        state.registry.manager.now ≤ t0 + (120 * 1000 + 3 * late) := by
    intro hid
    obtain ⟨t0, hheld, hle⟩ := h.stale id hid
    exact ⟨t0, hheld, by omega⟩
  have hmaps : id ∈ state.registry.manager.activeJobs ∨ id ∈ state.registry.manager.jobTimestamps →
      ∃ t0, HeldSince state.issuedAt id t0 ∧
        state.registry.manager.now ≤ t0 + (120 * 1000 + 3 * late) := by
    intro hid
    obtain ⟨call, hcall, -, rfl⟩ | hmem | ⟨t, -, hstamped, hrecent⟩ := hinv.excused crates id hid
    · exact hcalled call hcall
    · exact hstale hmem
    · obtain ⟨t0, hheld, hle⟩ := h.stamped id t hstamped
      exact ⟨t0, hheld, by omega⟩
  obtain hactive | htimes | hmem | ⟨call, hcall, -, rfl⟩ := htaken
  · exact hmaps (.inl hactive)
  · exact hmaps (.inr htimes)
  · exact hstale hmem
  · exact hcalled call hcall

theorem fresh_of_spaced (h : Dated late state) (hinv : Collector.Inv crates state.registry)
    (htimely : Timely late state) {a : Jobs.Action Body}
    (hspaced : Spaced (120 * 1000 + 3 * late) state a) : FreshJob state.registry a := by
  cases a with
  | newBlock block =>
    intro _ htaken
    obtain ⟨t0, ⟨n, hissued, hid⟩, hrecent⟩ := taken_since h hinv htimely htaken
    rw [h.counter] at hid
    have hmod := (jobIdOf_eq_iff _ _).mp hid
    exact hspaced.fresh h.ordered hissued hrecent hmod.symm
  | _ => trivial

end Dates

section Runs

variable {Body : Type} {crates : Crates}

theorem Sound.of_inv {state : Collector.State Body} (h : Collector.Inv crates state) :
    Sound crates state where
  found := by
    intro e he
    have hrow : e.row ∈ rows state.manager.calls state.log.young :=
      List.mem_append_right _ (List.mem_map_of_mem he)
    exact ⟨h.kept.holds.value e.row hrow, h.kept.built e he⟩
  distinct := by
    have hnodup := h.kept.holds.nodup
    rw [rows, List.map_append, List.map_map] at hnodup
    exact hnodup.of_append_right
  leaks := h.excused crates

/-- The sixteen bits of an id are enough: in a run whose calls and sweeps are
never later than `late`, and in which no 65536 blocks come within two minutes
and three times that, no block gets an id that a job still holds. So every job
is found with what it was built from until it is two minutes old. -/
theorem ids_suffice (late : Nat) (as : List (Jobs.Action Body))
    (htimely : Guarded (step crates) (fun state _ => Timely late state) (boot Body) as)
    (hspaced : Guarded (step crates) (Spaced (120 * 1000 + 3 * late)) (boot Body) as) :
    Guarded (step crates) (fun state a => FreshJob state.registry a) (boot Body) as ∧
      Always (step crates) (fun state => Sound crates state.registry) (boot Body) as := by
  have hkept : Always (step crates)
      (fun state => Collector.Inv crates state.registry ∧ Dated late state) (boot Body) as := by
    refine prefix_induction ?_ ?_
    · exact ⟨⟨kept_new crates, le_rfl, by simp [boot, Collector.boot]⟩, dated_boot late⟩
    · rintro pre a hp ⟨hinv, hdated⟩
      have htime := htimely pre a hp
      have hfresh := fresh_of_spaced hdated hinv htime (hspaced pre a hp)
      rw [run_concat]
      exact ⟨Collector.inv_step crates hinv a hfresh, dated_step hdated hinv htime a⟩
  refine ⟨?_, always_mono (fun _ h => Sound.of_inv h.1) hkept⟩
  intro pre a hp
  obtain ⟨hinv, hdated⟩ := hkept pre (prefix_of_concat hp)
  exact fresh_of_spaced hdated hinv (htimely pre a hp) (hspaced pre a hp)

end Runs

section Examples

/-- Two blocks fifteen seconds apart with the sweep between them. -/
def twoBlocks : List (Jobs.Action Unit) :=
  [.newBlock template, .advance 0, .advance 0, .advance 0, .advance 0, .wait 15000, .scan,
    .newBlock template, .advance 0, .advance 0]

theorem two_blocks_ids_suffice :
    Guarded (step tameCrates) (fun state a => FreshJob state.registry a) (boot Unit) twoBlocks ∧
      Always (step tameCrates) (fun state => Sound tameCrates state.registry) (boot Unit)
        twoBlocks := by
  apply ids_suffice 15000
  · simp only [twoBlocks, guarded_cons, guarded_nil]
    decide +kernel
  · simp only [twoBlocks, guarded_cons, guarded_nil, Spaced, and_true, true_and]
    exact ⟨fun h => absurd h (by decide), fun h => absurd h (by decide)⟩

end Examples

end StratumPool.Reissue
