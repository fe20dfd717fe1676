import StratumPool.Yield
import StratumPool.Lib.Runs

namespace StratumPool.Isolation

open Lib Lib.Runs StratumPool.Text StratumPool.Json StratumPool.Oracle StratumPool.Yield

variable {R : Type} [Add R] [Mul R] [OfScientific R]

section Rows

/-- The two databases agree on everything that belongs to the wallet. -/
def SameFor (w : Str) (db₁ db₂ : Db R) : Prop :=
  db₁.yieldReservoirs.lookup w = db₂.yieldReservoirs.lookup w ∧
    db₁.taxLedgerEvents.filter (fun event => event.walletAddress == w) =
      db₂.taxLedgerEvents.filter (fun event => event.walletAddress == w)

omit [Add R] [OfScientific R] in
theorem taxRows_of_notMem {rows : List (Str × R)} {w : Str} (hw : ∀ d, (w, d) ∉ rows) (price : R) :
    (rows.map (taxEvent price)).filter (fun event => event.walletAddress == w) = [] := by
  rw [List.filter_eq_nil_iff]
  intro event he hc
  obtain ⟨row, hr, rfl⟩ := List.mem_map.mp he
  obtain rfl : row.1 = w := by simpa [taxEvent] using hc
  exact hw row.2 hr

omit [Add R] [OfScientific R] in
theorem taxRows_of_mem {rows : List (Str × R)} (hn : (rows.map Prod.fst).Nodup) {w : Str} {d : R}
    (hw : (w, d) ∈ rows) (price : R) :
    (rows.map (taxEvent price)).filter (fun event => event.walletAddress == w) =
      [taxEvent price (w, d)] := by
  induction rows with
  | nil => cases hw
  | cons row rows ih =>
    obtain ⟨hrow, hrest⟩ := List.nodup_cons.mp hn
    rw [List.map_cons]
    obtain rfl | hw := List.mem_cons.mp hw
    · have hnot : ∀ d', (w, d') ∉ rows := fun d' hd =>
        hrow (List.mem_map.mpr ⟨(w, d'), hd, rfl⟩)
      rw [List.filter_cons_of_pos (by simp [taxEvent]), taxRows_of_notMem hnot]
    · have hne : row.1 ≠ w := fun he => hrow (List.mem_map.mpr ⟨(w, d), hw, he.symm⟩)
      rw [List.filter_cons_of_neg (by simpa [taxEvent] using hne), ih hrest hw]

theorem credited_of_notMem (db : Db R) {rows : List (Str × R)} (hrows : storedRows rows = rows)
    {w : Str} (hw : ∀ d, (w, d) ∉ rows) (spot : Option R) : SameFor w (credited db rows spot) db := by
  rw [credited, hrows]
  refine ⟨lookup_fold_of_notMem hw _, ?_⟩
  rw [List.filter_append, taxRows_of_notMem hw, List.append_nil]

end Rows

section Tick

variable [NatCast R] [IntCast R] (parse : Str → Option (Value R))

def allReached : Transaction := ⟨true, true, true, true⟩

/-- The tables after the share half of a tick. A column refuses every text that
is too long. -/
def creditTick (db : Db R) (order : AggregateOrder R) (buffer : List Str) (spot : Option R) : Db R :=
  (creditShares .refused parse db order buffer spot allReached).getD db

theorem creditTick_of_misfit (db : Db R) (order : AggregateOrder R) {buffer : List Str}
    (spot : Option R) (hf : ¬ Fits parse .refused buffer) : creditTick parse db order buffer spot = db := by
  rw [creditTick, creditShares, creditYield_eq_none db spot (by rwa [rowsFit_iff])]
  rfl

theorem creditTick_of_absent (db : Db R) (order : AggregateOrder R) {buffer : List Str} {w : Str}
    (spot : Option R) (hw : (walletAggregates parse buffer).lookup w = none) :
    SameFor w (creditTick parse db order buffer spot) db := by
  rw [creditTick]
  cases hc : creditShares .refused parse db order buffer spot allReached with
  | none => exact ⟨rfl, rfl⟩
  | some after =>
    obtain ⟨_, hfit, _, rfl⟩ := creditYield_some hc
    refine credited_of_notMem db (storedRows_of_refused hfit.each) (fun d hd => ?_) spot
    rw [mem_aggregatedRows, hw] at hd
    cases hd

theorem creditTick_of_present (db : Db R) (order : AggregateOrder R) {buffer : List Str} {w : Str}
    {d : R} (spot : Option R) (hf : Fits parse .refused buffer)
    (hw : (walletAggregates parse buffer).lookup w = some d) :
    (creditTick parse db order buffer spot).yieldReservoirs.lookup w =
        some (addYield (db.yieldReservoirs.lookup w) d) ∧
      (creditTick parse db order buffer spot).taxLedgerEvents.filter
          (fun event => event.walletAddress == w) =
        db.taxLedgerEvents.filter (fun event => event.walletAddress == w) ++
          [taxEvent (spot.getD 0.16) (w, d)] := by
  have hmem := (mem_aggregatedRows parse order buffer w d).mpr hw
  have hn := aggregatedRows_nodup parse order buffer
  have hfit := (rowsFit_iff parse order buffer).mpr hf
  rw [creditTick, creditShares, creditYield_of_fit db spot (List.ne_nil_of_mem hmem) hfit
    ⟨rfl, rfl, rfl, rfl⟩, Option.getD_some, credited, storedRows_of_refused hfit.each]
  refine ⟨lookup_fold_of_mem hn hmem _, ?_⟩
  rw [List.filter_append, taxRows_of_mem hn hmem]

/-- What the tick leaves a wallet depends on the other events only through
whether all of them fit. -/
theorem creditTick_same_iff (db : Db R) (w : Str) (order₁ order₂ : AggregateOrder R)
    {buffer₁ buffer₂ : List Str} (spot : Option R)
    (hagree : buffer₁.filter (creditsTo parse w) = buffer₂.filter (creditsTo parse w)) :
    SameFor w (creditTick parse db order₁ buffer₁ spot) (creditTick parse db order₂ buffer₂ spot) ↔
      buffer₁.filter (creditsTo parse w) = [] ∨ (Fits parse .refused buffer₁ ↔ Fits parse .refused buffer₂) := by
  have hlookup : (walletAggregates parse buffer₂).lookup w =
      (walletAggregates parse buffer₁).lookup w := by
    rw [lookup_aggregates_filter, ← hagree, ← lookup_aggregates_filter]
  have hnil : buffer₁.filter (creditsTo parse w) = [] ↔
      (walletAggregates parse buffer₁).lookup w = none := by
    rw [← Option.not_isSome_iff_eq_none, lookup_aggregates_isSome, List.filter_eq_nil_iff]
    simp
  rw [hnil]
  cases hl : (walletAggregates parse buffer₁).lookup w with
  | none =>
    obtain ⟨hy₁, ht₁⟩ := creditTick_of_absent parse db order₁ spot hl
    obtain ⟨hy₂, ht₂⟩ := creditTick_of_absent parse db order₂ spot (hlookup.trans hl)
    exact iff_of_true ⟨hy₁.trans hy₂.symm, ht₁.trans ht₂.symm⟩ (.inl rfl)
  | some d =>
    simp only [reduceCtorEq, false_or]
    have hone : ∀ l : List (TaxLedgerEvent R), ∀ e, l ++ [e] ≠ l := fun l e h => by
      simpa using congrArg List.length h
    by_cases hf₁ : Fits parse .refused buffer₁
    · obtain ⟨hy₁, ht₁⟩ := creditTick_of_present parse db order₁ spot hf₁ hl
      by_cases hf₂ : Fits parse .refused buffer₂
      · obtain ⟨hy₂, ht₂⟩ := creditTick_of_present parse db order₂ spot hf₂ (hlookup.trans hl)
        exact iff_of_true ⟨hy₁.trans hy₂.symm, ht₁.trans ht₂.symm⟩ (iff_of_true hf₁ hf₂)
      · rw [creditTick_of_misfit parse db order₂ spot hf₂]
        refine iff_of_false (fun hs => hone _ _ (ht₁.symm.trans hs.2)) (fun h => hf₂ (h.mp hf₁))
    · rw [creditTick_of_misfit parse db order₁ spot hf₁]
      by_cases hf₂ : Fits parse .refused buffer₂
      · obtain ⟨_, ht₂⟩ := creditTick_of_present parse db order₂ spot hf₂ (hlookup.trans hl)
        exact iff_of_false (fun hs => hone _ _ (ht₂.symm.trans hs.2.symm)) (fun h => hf₁ (h.mpr hf₂))
      · rw [creditTick_of_misfit parse db order₂ spot hf₂]
        exact iff_of_true ⟨rfl, rfl⟩ (iff_of_false hf₁ hf₂)

omit [NatCast R] [IntCast R] in
theorem take_whole {buffer : List (Nat × Str)} (h : buffer.length ≤ 501) : buffer.take 501 = buffer :=
  List.take_of_length_le h

theorem creditTick_nil (db : Db R) (order : AggregateOrder R) (spot : Option R) :
    creditTick parse db order [] spot = db := by
  rw [creditTick]
  cases hc : creditShares .refused parse db order [] spot allReached with
  | none => rfl
  | some after =>
    refine absurd ?_ (creditYield_some hc).1
    have hnil := (order.eq_nil_iff (walletAggregates parse []).entries).mpr rfl
    rw [aggregatedRows, hnil, List.map_nil]

omit [Add R] [Mul R] [OfScientific R] [NatCast R] [IntCast R] in
/-- The calls of the first half of a tick, all of them answered. -/
def shareHalf (order : AggregateOrder R) (spot : Option R) : List (Oracle.Action R) :=
  [.readShares true, .trimShares true, .applyShares order spot allReached]

theorem shareHalf_db {state : State R} (hphase : state.phase = .shares)
    (hstage : state.share.stage = .idle) (hlen : state.share.buffer.length ≤ 501)
    (order : AggregateOrder R) (spot : Option R) :
    (run (Oracle.step .refused parse) state (shareHalf order spot)).db =
      creditTick parse state.db order (state.share.buffer.map Prod.snd) spot := by
  by_cases hb : state.share.buffer = []
  · simp [shareHalf, Oracle.step, readShares, HandOff.read, hphase, hstage, hb, HandOff.trim, applyShares,
      creditTick_nil]
  · simp [shareHalf, Oracle.step, readShares, HandOff.read, hphase, hstage, hb, HandOff.trim, applyShares,
      take_whole hlen, creditTick]

omit [Add R] [Mul R] [OfScientific R] [NatCast R] [IntCast R] in
/-- The calls of the second half of a tick. -/
def blockHalf : List (Oracle.Action R) :=
  [.readBlocks true, .trimBlocks true, .applyBlocks (fun _ => true)]

theorem blockHalf_tables (state : State R) :
    (run (Oracle.step .refused parse) state blockHalf).db.yieldReservoirs = state.db.yieldReservoirs ∧
      (run (Oracle.step .refused parse) state blockHalf).db.taxLedgerEvents = state.db.taxLedgerEvents := by
  have hread : (readBlocks state true).db = state.db := by
    rw [readBlocks]
    split <;> rfl
  simp only [blockHalf, run_cons, run_nil, Oracle.step, applyBlocks]
  split
  · obtain ⟨hyields, htaxes⟩ := insertBlocks_yields .refused parse (fun _ => true)
      ((readBlocks state true).block.trim true).hand (readBlocks state true).db
    rw [hread] at hyields htaxes
    simp only [hread]
    exact ⟨hyields, htaxes⟩
  · simp only [hread, and_self]

omit [NatCast R] [IntCast R] [Add R] [Mul R] [OfScientific R] in
theorem fold_push (h : HandOff Str) (buffer : List Str) :
    (buffer.foldl HandOff.push h).stage = h.stage ∧
      (buffer.foldl HandOff.push h).buffer.map Prod.snd = h.buffer.map Prod.snd ++ buffer := by
  induction buffer generalizing h with
  | nil => simp
  | cons x buffer ih =>
    obtain ⟨hs, hb⟩ := ih (h.push x)
    exact ⟨hs, by rw [List.foldl_cons, hb]; simp [HandOff.push]⟩

theorem run_pushShares (state : State R) (buffer : List Str) :
    run (Oracle.step .refused parse) state (buffer.map .pushShare) =
      { state with share := buffer.foldl HandOff.push state.share } := by
  induction buffer generalizing state with
  | nil => rfl
  | cons rawEvt buffer ih =>
    rw [List.map_cons, run_cons, ih]
    rfl

theorem run_pushBlocks (state : State R) (buffer : List Str) :
    run (Oracle.step .refused parse) state (buffer.map .pushBlock) =
      { state with block := buffer.foldl HandOff.push state.block } := by
  induction buffer generalizing state with
  | nil => rfl
  | cons rawBlock buffer ih =>
    rw [List.map_cons, run_cons, ih]
    rfl

/-- The state after the two buffers have been filled and one tick has run. -/
def afterTick (db : Db R) (shares blocks : List Str) (order : AggregateOrder R) (spot : Option R) :
    State R :=
  run (Oracle.step .refused parse) (boot db)
    (shares.map .pushShare ++ blocks.map .pushBlock ++ (shareHalf order spot ++ blockHalf))

omit [Add R] [Mul R] [OfScientific R] [NatCast R] [IntCast R] in
def filled (db : Db R) (shares blocks : List Str) : State R :=
  { boot db with
    share := shares.foldl HandOff.push (boot db).share
    block := blocks.foldl HandOff.push (boot db).block }

omit [Add R] [Mul R] [OfScientific R] [NatCast R] [IntCast R] in
theorem filled_buffer (db : Db R) (shares blocks : List Str) :
    (filled db shares blocks).share.stage = .idle ∧
      (filled db shares blocks).share.buffer.map Prod.snd = shares :=
  fold_push (.empty Str) shares

theorem run_pushes (db : Db R) (shares blocks : List Str) :
    run (Oracle.step .refused parse) (boot db) (shares.map .pushShare ++ blocks.map .pushBlock) =
      filled db shares blocks := by
  rw [run_append, run_pushShares, run_pushBlocks]
  rfl

theorem afterTick_tables (db : Db R) {shares : List Str} (blocks : List Str)
    (hlen : shares.length ≤ 501) (order : AggregateOrder R) (spot : Option R) :
    (afterTick parse db shares blocks order spot).db.yieldReservoirs =
        (creditTick parse db order shares spot).yieldReservoirs ∧
      (afterTick parse db shares blocks order spot).db.taxLedgerEvents =
        (creditTick parse db order shares spot).taxLedgerEvents := by
  obtain ⟨hstage, hbuffer⟩ := filled_buffer db shares blocks
  have hsize : (filled db shares blocks).share.buffer.length ≤ 501 := by
    have hcount := congrArg List.length hbuffer
    rw [List.length_map] at hcount
    exact hcount.trans_le hlen
  have hdb := shareHalf_db parse rfl hstage hsize order spot
  rw [hbuffer] at hdb
  have hblocks := blockHalf_tables parse
    (run (Oracle.step .refused parse) (filled db shares blocks) (shareHalf order spot))
  rw [hdb] at hblocks
  rw [afterTick, run_append, run_pushes, run_append]
  exact hblocks

theorem afterTick_same (db : Db R) (w : Str) {shares₁ shares₂ : List Str}
    (blocks₁ blocks₂ : List Str) (order₁ order₂ : AggregateOrder R) (spot : Option R)
    (hlen₁ : shares₁.length ≤ 501) (hlen₂ : shares₂.length ≤ 501) :
    SameFor w (afterTick parse db shares₁ blocks₁ order₁ spot).db
        (afterTick parse db shares₂ blocks₂ order₂ spot).db ↔
      SameFor w (creditTick parse db order₁ shares₁ spot)
        (creditTick parse db order₂ shares₂ spot) := by
  obtain ⟨hy₁, ht₁⟩ := afterTick_tables parse db blocks₁ hlen₁ order₁ spot
  obtain ⟨hy₂, ht₂⟩ := afterTick_tables parse db blocks₂ hlen₂ order₂ spot
  simp only [SameFor, hy₁, hy₂, ht₁, ht₂]

/-- One tick over the whole buffer leaves a wallet the same whatever the other
wallets' events are, if and only if the wallet has none itself or both buffers
or neither hold a wallet too long to store. -/
theorem tick_isolated_iff (db : Db R) (w : Str) {shares₁ shares₂ : List Str} (blocks₁ blocks₂ : List Str)
    (order₁ order₂ : AggregateOrder R) (spot : Option R)
    (hlen₁ : shares₁.length ≤ 501) (hlen₂ : shares₂.length ≤ 501)
    (hagree : shares₁.filter (creditsTo parse w) = shares₂.filter (creditsTo parse w)) :
    SameFor w (afterTick parse db shares₁ blocks₁ order₁ spot).db
        (afterTick parse db shares₂ blocks₂ order₂ spot).db ↔
      shares₁.filter (creditsTo parse w) = [] ∨ (Fits parse .refused shares₁ ↔ Fits parse .refused shares₂) := by
  rw [afterTick_same parse db w blocks₁ blocks₂ order₁ order₂ spot hlen₁ hlen₂]
  exact creditTick_same_iff parse db w order₁ order₂ spot hagree

end Tick

section Examples

def wallet : Str := lit "kaspa:qz0"

def neighbour : Str := lit "kaspa:qz1.rig"

/-- A name of 260 characters before the line's other fields. -/
def longWorker : Str := List.replicate 256 'a' ++ lit ".rig"

theorem creditsTo_sample {parse : Str → Option (Value ℚ)} {worker : Str}
    (hp : parse (sampleText worker) = some (sampleEvent worker)) (hne : worker ≠ []) (w : Str) :
    creditsTo parse w (sampleText worker) = (w == (splitDots worker).head?.getD worker) := by
  simp [creditsTo, yieldOf_sample hp hne]

theorem fits_samples {parse : Str → Option (Value ℚ)} {workers : List Str}
    (hp : ∀ worker ∈ workers, parse (sampleText worker) = some (sampleEvent worker) ∧ worker ≠ []) :
    Fits parse .refused (workers.map sampleText) ↔
      ∀ worker ∈ workers, fitsVarchar .refused 255 ((splitDots worker).head?.getD worker) = true := by
  rw [fits_refused_iff]
  constructor
  · intro hf worker hm
    exact hf _ (List.mem_map_of_mem hm) _ (yieldOf_sample (hp worker hm).1 (hp worker hm).2)
  · intro hf rawEvt he row hy
    obtain ⟨worker, hm, rfl⟩ := List.mem_map.mp he
    rw [yieldOf_sample (hp worker hm).1 (hp worker hm).2] at hy
    cases hy
    exact hf worker hm

theorem parse_pair {worker : Str} (h : sampleText rig ≠ sampleText worker) (hne : worker ≠ []) :
    ∀ v ∈ [rig, worker],
      sampleParse [rig, worker] (sampleText v) = some (sampleEvent v) ∧ v ≠ [] := by
  intro v hv
  simp only [List.mem_cons, List.not_mem_nil, or_false] at hv
  obtain rfl | rfl := hv
  · exact ⟨sampleParse_head rig _, by decide⟩
  · exact ⟨sampleParse_next h, hne⟩

theorem parse_rig (worker : Str) :
    ∀ v ∈ [rig], sampleParse [rig, worker] (sampleText v) = some (sampleEvent v) ∧ v ≠ [] := by
  intro v hv
  rw [List.mem_singleton.mp hv]
  exact ⟨sampleParse_head rig _, by decide⟩

/-- The two buffers agree on the wallet when the other event is another's. -/
theorem agree_pair {worker : Str} (h : sampleText rig ≠ sampleText worker) (hne : worker ≠ [])
    (hw : (wallet == (splitDots worker).head?.getD worker) = false) :
    ([rig].map sampleText).filter (creditsTo (sampleParse [rig, worker]) wallet) =
      ([rig, worker].map sampleText).filter (creditsTo (sampleParse [rig, worker]) wallet) := by
  have hother := creditsTo_sample (parse_pair h hne worker (by simp)).1 hne wallet
  rw [hw] at hother
  have hsplit : [rig, worker].map sampleText = [rig].map sampleText ++ [sampleText worker] := rfl
  rw [hsplit, List.filter_append, List.filter_cons_of_neg (by simp [hother]), List.filter_nil,
    List.append_nil]

/-- One name of 256 characters takes the wallet's own yield of the tick away. -/
theorem long_name_starves_wallet :
    ¬ ∀ parse : Str → Option (Value ℚ), ∀ db : Db ℚ, ∀ w, ∀ shares₁ shares₂ : List Str,
      shares₁.length ≤ 501 → shares₂.length ≤ 501 →
      shares₁.filter (creditsTo parse w) = shares₂.filter (creditsTo parse w) →
      ∀ order₁ order₂ spot, SameFor w (afterTick parse db shares₁ [] order₁ spot).db
        (afterTick parse db shares₂ [] order₂ spot).db := by
  intro h
  have hne : longWorker ≠ [] := by decide +kernel
  have htext : sampleText rig ≠ sampleText longWorker := by decide +kernel
  have hagree := agree_pair htext hne (by decide +kernel)
  have hsame := h (sampleParse [rig, longWorker]) emptyDb wallet _ _ (by simp) (by simp) hagree
    (.asStored _) (.asStored _) none
  rw [afterTick_same _ _ _ _ _ _ _ _ (by simp) (by simp),
    creditTick_same_iff _ _ _ _ _ _ hagree] at hsame
  obtain hnone | hfits := hsame
  · have hrig : creditsTo (sampleParse [rig, longWorker]) wallet (sampleText rig) = true := by
      rw [creditsTo_sample (sampleParse_head rig _) (by decide)]
      decide
    simp [hrig] at hnone
  · rw [fits_samples (parse_rig longWorker), fits_samples (parse_pair htext hne)] at hfits
    have hlong := hfits.mp (by decide) longWorker (by simp)
    exact absurd hlong (by decide +kernel)

theorem neighbour_leaves_wallet :
    SameFor wallet
      (afterTick (sampleParse [rig, neighbour]) emptyDb ([rig].map sampleText) [] (.asStored _) none).db
      (afterTick (sampleParse [rig, neighbour]) emptyDb ([rig, neighbour].map sampleText) []
        (.asStored _) none).db := by
  have hne : neighbour ≠ [] := by decide
  have htext : sampleText rig ≠ sampleText neighbour := by decide +kernel
  refine (tick_isolated_iff _ _ _ _ _ _ _ _ (by simp) (by simp)
    (agree_pair htext hne (by decide))).mpr (.inr (iff_of_true ?_ ?_))
  · rw [fits_samples (parse_rig neighbour)]
    decide
  · rw [fits_samples (parse_pair htext hne)]
    decide

end Examples

end StratumPool.Isolation
