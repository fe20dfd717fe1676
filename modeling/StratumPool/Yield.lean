import StratumPool.Oracle
import StratumPool.Telemetry

namespace StratumPool.Yield

open Lib StratumPool.Text StratumPool.Json StratumPool.Oracle

variable {R : Type} [Add R]

section Columns

/-- A text within its column's length is stored as it is. -/
theorem storedVarchar_of_short {n : Nat} {s : Str} (h : s.length ≤ n) : storedVarchar n s = s :=
  List.take_of_length_le h

/-- A column that refuses a text that is too long cuts none. -/
theorem storedVarchar_of_refused {n : Nat} {s : Str} (h : fitsVarchar .refused n s = true) :
    storedVarchar n s = s := by
  apply storedVarchar_of_short
  simpa [fitsVarchar] using (Bool.and_eq_true_iff.mp h).2

/-- Only a text that ends in a space is cut. -/
theorem storedVarchar_of_trim {excess : Excess} {n : Nat} {s : Str}
    (h : fitsVarchar excess n (trim s) = true) : storedVarchar n (trim s) = trim s := by
  apply storedVarchar_of_short
  by_contra hlong
  obtain ⟨-, hshort | hspaces⟩ := by simpa only [fitsVarchar, Bool.and_eq_true, Bool.or_eq_true] using h
  · exact hlong (of_decide_eq_true hshort)
  · have hne : trim s ≠ [] := by
      intro hnil
      simp [hnil] at hlong
    have hlast : (trim s).getLast hne ∈ (trim s).drop n := by
      rw [← List.getLast_drop (by simpa using hlong)]
      exact List.getLast_mem _
    have hspace := List.all_eq_true.mp hspaces.2 _ hlast
    have hend : ¬ isWhitespace ((trim s).getLast hne) = true :=
      List.rdropWhile_last_not isWhitespace _ hne
    rw [beq_iff_eq.mp hspace] at hend
    exact hend rfl

example : fitsVarchar .cut 2 (lit "ab  ") = true ∧ storedVarchar 2 (lit "ab  ") = lit "ab" := by
  decide

theorem fitsVarchar_of_short {excess : Excess} {n : Nat} {s : Str} (h : s.length ≤ n)
    (hnul : s.contains (Char.ofNat 0) = false) : fitsVarchar excess n s = true := by
  rw [fitsVarchar, hnul]
  simp [h]

end Columns

section Upsert

variable {excess : Excess}

omit [Add R] in
def storedRows (rows : List (Str × R)) : List (Str × R) := rows.map storedRow

omit [Add R] in
theorem storedRows_of_refused {rows : List (Str × R)}
    (h : ∀ row ∈ rows, fitsVarchar .refused 255 row.1 = true) : storedRows rows = rows := by
  refine (List.map_congr_left (fun row hr => ?_)).trans (List.map_id rows)
  exact Prod.ext (storedVarchar_of_refused (h row hr)) rfl

def upsertRow (t : Table Str (YieldReservoir R)) (row : Str × R) : Table Str (YieldReservoir R) :=
  t.insert row.1 (addYield (t.lookup row.1) row.2)

theorem upsert_some {reservoirs after : Table Str (YieldReservoir R)} {rows : List (Str × R)}
    (h : upsertReservoirs excess reservoirs rows = some after) :
    ((storedRows rows).map Prod.fst).Nodup ∧
      (∀ row ∈ rows, fitsVarchar excess 255 row.1 = true) ∧
      after = (storedRows rows).foldl upsertRow reservoirs := by
  rw [upsertReservoirs] at h
  split at h
  · rename_i hfits
    exact ⟨hfits.1, List.all_eq_true.mp hfits.2, (Option.some.inj h).symm⟩
  · cases h

theorem lookup_fold_of_notMem {rows : List (Str × R)} {w : Str} (hw : ∀ d, (w, d) ∉ rows)
    (t : Table Str (YieldReservoir R)) : (rows.foldl upsertRow t).lookup w = t.lookup w := by
  induction rows generalizing t with
  | nil => rfl
  | cons row rows ih =>
    have hne : w ≠ row.1 := fun he => hw row.2 (by rw [he]; exact List.mem_cons_self)
    rw [List.foldl_cons, ih (fun d hd => hw d (List.mem_cons_of_mem _ hd)), upsertRow,
      AList.lookup_insert_ne hne]

theorem lookup_fold_of_mem {rows : List (Str × R)} (hn : (rows.map Prod.fst).Nodup) {w : Str} {d : R}
    (hw : (w, d) ∈ rows) (t : Table Str (YieldReservoir R)) :
    (rows.foldl upsertRow t).lookup w = some (addYield (t.lookup w) d) := by
  induction rows generalizing t with
  | nil => cases hw
  | cons row rows ih =>
    obtain ⟨hrow, hrest⟩ := List.nodup_cons.mp hn
    rw [List.foldl_cons]
    obtain rfl | hw := List.mem_cons.mp hw
    · have hnot : ∀ d', (w, d') ∉ rows := fun d' hd =>
        hrow (List.mem_map.mpr ⟨(w, d'), hd, rfl⟩)
      rw [lookup_fold_of_notMem hnot, upsertRow, AList.lookup_insert]
    · have hne : w ≠ row.1 := fun he =>
        hrow (List.mem_map.mpr ⟨(w, d), hw, he⟩)
      rw [ih hrest hw, upsertRow, AList.lookup_insert_ne hne]

variable [Mul R]

omit [Add R] in
/-- The table gets the tax row of the wallet as it stores it. -/
theorem storedTaxEvent_taxEvent (price : R) (row : Str × R) :
    storedTaxEvent (taxEvent price row) = taxEvent price (storedRow row) := rfl

/-- After the upsert the tax rows refer to reservoirs that exist. -/
theorem taxEvents_fit {reservoirs after : Table Str (YieldReservoir R)} {rows : List (Str × R)}
    (h : upsertReservoirs excess reservoirs rows = some after) (price : R) :
    ∀ event ∈ rows.map (taxEvent price), taxEventFits excess after event = true := by
  obtain ⟨hn, hfits, rfl⟩ := upsert_some h
  intro event he
  obtain ⟨row, hr, rfl⟩ := List.mem_map.mp he
  have hstored : ((storedRow row).1, (storedRow row).2) ∈ storedRows rows := List.mem_map_of_mem hr
  have hlookup := lookup_fold_of_mem hn hstored reservoirs
  have hkas : fitsVarchar excess 20 (lit "KAS") = true := fitsVarchar_of_short (by decide) (by decide)
  have hyield : fitsVarchar excess 50 (lit "YIELD") = true :=
    fitsVarchar_of_short (by decide) (by decide)
  rw [taxEventFits, storedTaxEvent_taxEvent]
  simp [taxEvent, hfits row hr, hlookup, hkas, hyield]

end Upsert

section Credit

variable {excess : Excess} [Mul R] [OfScientific R]

/-- All calls of the transaction take effect unless Postgres refuses the data. -/
def Reachable (tx : Transaction) : Prop :=
  tx.begin = true ∧ tx.upsert = true ∧ tx.taxInsert = true ∧ tx.commit = true

/-- The wallet column takes every row, and no two rows under one name. -/
structure RowsFit (excess : Excess) (rows : List (Str × R)) : Prop where
  each : ∀ row ∈ rows, fitsVarchar excess 255 row.1 = true
  apart : ((storedRows rows).map Prod.fst).Nodup

/-- What a transaction leaves when it commits. -/
def credited (db : Db R) (rows : List (Str × R)) (spot : Option R) : Db R :=
  { db with
    yieldReservoirs := (storedRows rows).foldl upsertRow db.yieldReservoirs
    taxLedgerEvents := db.taxLedgerEvents ++ (storedRows rows).map (taxEvent (spot.getD 0.16)) }

omit [Add R] [OfScientific R] in
theorem storedTaxEvents (price : R) (rows : List (Str × R)) :
    (rows.map (taxEvent price)).map storedTaxEvent = (storedRows rows).map (taxEvent price) := by
  rw [storedRows, List.map_map, List.map_map]
  rfl

theorem creditYield_of_fit (db : Db R) {rows : List (Str × R)} (spot : Option R) {tx : Transaction}
    (hne : rows ≠ []) (hfit : RowsFit excess rows) (htx : Reachable tx) :
    creditYield excess db rows spot tx = some (credited db rows spot) := by
  obtain ⟨hbegin, hupsert, htax, hcommit⟩ := htx
  have hrows : upsertReservoirs excess db.yieldReservoirs rows =
      some ((storedRows rows).foldl upsertRow db.yieldReservoirs) := by
    rw [upsertReservoirs]
    exact if_pos ⟨hfit.apart, List.all_eq_true.mpr hfit.each⟩
  have hevents := List.all_eq_true.mpr (taxEvents_fit hrows (spot.getD 0.16))
  rw [creditYield, hrows]
  simp only [Option.bind_eq_bind, Option.bind_some, insertTaxEvents, hevents, if_true,
    storedTaxEvents]
  simp [hne, hbegin, hupsert, htax, hcommit, credited, guard]

omit [Add R] [Mul R] [OfScientific R] in
theorem of_guard {p : Prop} [Decidable p] {u : Unit} (h : (guard p : Option Unit) = some u) : p := by
  by_contra hp
  simp [guard, hp] at h

theorem creditYield_some {db after : Db R} {rows : List (Str × R)} {spot : Option R}
    {tx : Transaction} (h : creditYield excess db rows spot tx = some after) :
    rows ≠ [] ∧ RowsFit excess rows ∧ Reachable tx ∧ after = credited db rows spot := by
  simp only [creditYield, bind, Option.bind_eq_some_iff] at h
  obtain ⟨_, hbegin, reservoirs, hrows, _, htax, ledger, hledger, _, hcommit, hafter⟩ := h
  obtain ⟨hne, hbegin, hupsert⟩ := of_guard hbegin
  obtain ⟨hn, hfit, rfl⟩ := upsert_some hrows
  rw [insertTaxEvents, if_pos (List.all_eq_true.mpr (taxEvents_fit hrows _)),
    storedTaxEvents] at hledger
  cases hledger
  cases hafter
  exact ⟨hne, ⟨hfit, hn⟩, ⟨hbegin, hupsert, of_guard htax, of_guard hcommit⟩, rfl⟩

theorem creditYield_eq_none (db : Db R) {rows : List (Str × R)} (spot : Option R) {tx : Transaction}
    (h : ¬ RowsFit excess rows) : creditYield excess db rows spot tx = none := by
  cases hc : creditYield excess db rows spot tx with
  | none => rfl
  | some after => exact absurd (creditYield_some hc).2.1 h

end Credit

section Aggregates

variable {excess : Excess} [Mul R] [OfScientific R] [NatCast R] [IntCast R] (parse : Str → Option (Value R))
  (order : AggregateOrder R)

theorem mem_aggregatedRows (shareEvents : List Str) (w : Str) (d : R) :
    (w, d) ∈ aggregatedRows parse order shareEvents ↔
      (walletAggregates parse shareEvents).lookup w = some d := by
  rw [← Table.mem_entries_iff, aggregatedRows, List.mem_map, ← (order.perm _).mem_iff]
  constructor
  · rintro ⟨⟨k, v⟩, he, hp⟩
    cases hp
    exact he
  · exact fun he => ⟨⟨w, d⟩, he, rfl⟩

theorem aggregatedRows_nodup (shareEvents : List Str) :
    ((aggregatedRows parse order shareEvents).map Prod.fst).Nodup := by
  have hkeys := (walletAggregates parse shareEvents).nodupKeys
  rw [List.NodupKeys, List.keys] at hkeys
  rw [aggregatedRows, List.map_map]
  exact (((order.perm _).map Sigma.fst).nodup_iff).mpr hkeys

/-- The aggregated yield of one wallet, step by step. -/
theorem lookup_aggregates_concat (shareEvents : List Str) (rawEvt : Str) (w : Str) :
    (walletAggregates parse (shareEvents ++ [rawEvt])).lookup w =
      match yieldOf parse rawEvt with
      | none => (walletAggregates parse shareEvents).lookup w
      | some (wallet, kasDelta) =>
          if w = wallet then
            some (((walletAggregates parse shareEvents).lookup w).getD 0.0 + kasDelta)
          else (walletAggregates parse shareEvents).lookup w := by
  rw [walletAggregates, List.foldl_append]
  simp only [List.foldl_cons, List.foldl_nil]
  cases hy : yieldOf parse rawEvt with
  | none => rfl
  | some row =>
    by_cases hw : w = row.1
    · subst hw
      simp [walletAggregates, AList.lookup_insert]
    · simp only [AList.lookup_insert_ne hw, if_neg hw]
      rfl

def creditsTo (w : Str) (rawEvt : Str) : Bool :=
  match yieldOf parse rawEvt with
  | none => false
  | some (wallet, _) => w == wallet

omit [Add R] in
theorem creditsTo_iff (w : Str) (rawEvt : Str) :
    creditsTo parse w rawEvt = true ↔ ∃ kasDelta, yieldOf parse rawEvt = some (w, kasDelta) := by
  rw [creditsTo]
  cases hy : yieldOf parse rawEvt with
  | none => simp
  | some row =>
    obtain ⟨wallet, kasDelta⟩ := row
    simp only [beq_iff_eq, Option.some.injEq, Prod.mk.injEq]
    constructor
    · rintro rfl
      exact ⟨kasDelta, rfl, rfl⟩
    · rintro ⟨_, rfl, _⟩
      rfl

/-- A wallet's aggregate comes from its own events alone. -/
theorem lookup_aggregates_filter (shareEvents : List Str) (w : Str) :
    (walletAggregates parse shareEvents).lookup w =
      (walletAggregates parse (shareEvents.filter (creditsTo parse w))).lookup w := by
  induction shareEvents using List.reverseRecOn with
  | nil => rfl
  | append_singleton events rawEvt ih =>
    rw [List.filter_append, lookup_aggregates_concat]
    cases hy : yieldOf parse rawEvt with
    | none => simpa [creditsTo, hy] using ih
    | some row =>
      by_cases hw : w = row.1
      · have hc : creditsTo parse w rawEvt = true := by simp [creditsTo, hy, hw]
        rw [List.filter_cons_of_pos hc, List.filter_nil, lookup_aggregates_concat, hy]
        simp [hw, ih]
      · have hc : ¬ creditsTo parse w rawEvt = true := by simp [creditsTo, hy, hw]
        rw [List.filter_cons_of_neg hc, List.filter_nil, List.append_nil]
        simpa [hw] using ih

theorem lookup_aggregates_isSome (shareEvents : List Str) (w : Str) :
    ((walletAggregates parse shareEvents).lookup w).isSome = true ↔
      ∃ rawEvt ∈ shareEvents, creditsTo parse w rawEvt = true := by
  induction shareEvents using List.reverseRecOn with
  | nil => simp [walletAggregates]
  | append_singleton events rawEvt ih =>
    rw [lookup_aggregates_concat]
    cases hy : yieldOf parse rawEvt with
    | none => simpa [creditsTo, hy, or_and_right, exists_or] using ih
    | some row =>
      by_cases hw : w = row.1
      · simp [creditsTo, hy, hw, or_and_right, exists_or]
      · simpa [creditsTo, hy, hw, or_and_right, exists_or] using ih

omit [Add R] in
/-- The wallet column takes the wallet of every event of the buffer, and it
stores no two of them under one name. -/
structure Fits (excess : Excess) (buffer : List Str) : Prop where
  each : ∀ rawEvt ∈ buffer, ∀ row, yieldOf parse rawEvt = some row →
    fitsVarchar excess 255 row.1 = true
  apart : ∀ rawEvt ∈ buffer, ∀ rawEvt' ∈ buffer, ∀ row row', yieldOf parse rawEvt = some row →
    yieldOf parse rawEvt' = some row' → storedVarchar 255 row.1 = storedVarchar 255 row'.1 →
      row.1 = row'.1

/-- A wallet has a row if and only if some event of the batch credits it. -/
theorem wallet_has_row (shareEvents : List Str) (w : Str) :
    (∃ d, (w, d) ∈ aggregatedRows parse order shareEvents) ↔
      ∃ rawEvt ∈ shareEvents, ∃ kasDelta, yieldOf parse rawEvt = some (w, kasDelta) := by
  simp only [mem_aggregatedRows, ← Option.isSome_iff_exists, lookup_aggregates_isSome,
    creditsTo_iff]

/-- The rows of distinct wallets stay apart where no two wallets are stored
under one name. -/
theorem storedRows_apart_iff (buffer : List Str) :
    ((storedRows (aggregatedRows parse order buffer)).map Prod.fst).Nodup ↔
      ∀ w d w' d', (w, d) ∈ aggregatedRows parse order buffer →
        (w', d') ∈ aggregatedRows parse order buffer →
          storedVarchar 255 w = storedVarchar 255 w' → w = w' := by
  have hn := aggregatedRows_nodup parse order buffer
  have hkeys : (storedRows (aggregatedRows parse order buffer)).map Prod.fst =
      ((aggregatedRows parse order buffer).map Prod.fst).map (storedVarchar 255) := by
    rw [storedRows, List.map_map, List.map_map]
    rfl
  rw [hkeys, List.nodup_map_iff_inj_on hn]
  constructor
  · intro h w d w' d' hw hw' heq
    exact h w (List.mem_map_of_mem hw) w' (List.mem_map_of_mem hw') heq
  · intro h w hw w' hw' heq
    obtain ⟨row, hr, rfl⟩ := List.mem_map.mp hw
    obtain ⟨row', hr', rfl⟩ := List.mem_map.mp hw'
    exact h row.1 row.2 row'.1 row'.2 hr hr' heq

theorem rowsFit_iff (buffer : List Str) :
    RowsFit excess (aggregatedRows parse order buffer) ↔ Fits parse excess buffer := by
  have hrow : ∀ rawEvt ∈ buffer, ∀ row, yieldOf parse rawEvt = some row →
      ∃ d, (row.1, d) ∈ aggregatedRows parse order buffer := fun rawEvt he row hy =>
    (wallet_has_row parse order buffer row.1).mpr ⟨rawEvt, he, row.2, hy⟩
  have hevent : ∀ w d, (w, d) ∈ aggregatedRows parse order buffer →
      ∃ rawEvt ∈ buffer, ∃ kasDelta, yieldOf parse rawEvt = some (w, kasDelta) := fun w d hd =>
    (wallet_has_row parse order buffer w).mp ⟨d, hd⟩
  constructor
  · rintro ⟨heach, hapart⟩
    rw [storedRows_apart_iff] at hapart
    constructor
    · intro rawEvt he row hy
      obtain ⟨d, hd⟩ := hrow rawEvt he row hy
      exact heach (row.1, d) hd
    · intro rawEvt he rawEvt' he' row row' hy hy' heq
      obtain ⟨d, hd⟩ := hrow rawEvt he row hy
      obtain ⟨d', hd'⟩ := hrow rawEvt' he' row' hy'
      exact hapart row.1 d row'.1 d' hd hd' heq
  · rintro ⟨heach, hapart⟩
    refine ⟨?_, (storedRows_apart_iff parse order buffer).mpr ?_⟩
    · rintro ⟨w, d⟩ hd
      obtain ⟨rawEvt, he, kasDelta, hy⟩ := hevent w d hd
      exact heach rawEvt he (w, kasDelta) hy
    · intro w d w' d' hd hd' heq
      obtain ⟨rawEvt, he, kasDelta, hy⟩ := hevent w d hd
      obtain ⟨rawEvt', he', kasDelta', hy'⟩ := hevent w' d' hd'
      exact hapart rawEvt he rawEvt' he' (w, kasDelta) (w', kasDelta') hy hy' heq

omit [Add R] in
/-- With a column that cuts nothing the wallets need only be short enough. -/
theorem fits_refused_iff (buffer : List Str) :
    Fits parse .refused buffer ↔ ∀ rawEvt ∈ buffer, ∀ row, yieldOf parse rawEvt = some row →
      fitsVarchar .refused 255 row.1 = true := by
  refine ⟨Fits.each, fun heach => ⟨heach, ?_⟩⟩
  intro rawEvt he rawEvt' he' row row' hy hy' heq
  have hrow := storedVarchar_of_refused (heach rawEvt he row hy)
  have hrow' := storedVarchar_of_refused (heach rawEvt' he' row' hy')
  rwa [hrow, hrow'] at heq

variable (excess) in
/-- A batch takes effect when its calls reach Postgres, every wallet fits, and
there is something to credit. -/
theorem creditShares_isSome (db : Db R) (shareEvents : List Str) (spot : Option R)
    (tx : Transaction) :
    (creditShares excess parse db order shareEvents spot tx).isSome = true ↔
      Reachable tx ∧ Fits parse excess shareEvents ∧
        ∃ rawEvt ∈ shareEvents, (yieldOf parse rawEvt).isSome = true := by
  have hwork : aggregatedRows parse order shareEvents ≠ [] ↔
      ∃ rawEvt ∈ shareEvents, (yieldOf parse rawEvt).isSome = true := by
    constructor
    · intro hne
      obtain ⟨⟨w, d⟩, hd⟩ := List.exists_mem_of_ne_nil _ hne
      obtain ⟨rawEvt, he, kasDelta, hy⟩ :=
        (wallet_has_row parse order shareEvents w).mp ⟨d, hd⟩
      exact ⟨rawEvt, he, by rw [hy]; rfl⟩
    · rintro ⟨rawEvt, he, hsome⟩
      obtain ⟨row, hy⟩ := Option.isSome_iff_exists.mp hsome
      obtain ⟨d, hd⟩ := (wallet_has_row parse order shareEvents row.1).mpr ⟨rawEvt, he, row.2, hy⟩
      exact List.ne_nil_of_mem hd
  rw [← rowsFit_iff parse order, ← hwork, Option.isSome_iff_exists]
  constructor
  · rintro ⟨after, hc⟩
    obtain ⟨hne, hfit, htx, _⟩ := creditYield_some hc
    exact ⟨htx, hfit, hne⟩
  · rintro ⟨htx, hfit, hne⟩
    exact ⟨_, creditYield_of_fit db spot hne hfit htx⟩

end Aggregates

section Blocks

variable [OfScientific R] [NatCast R] [IntCast R] (excess : Excess) (parse : Str → Option (Value R))

omit [Add R] in
/-- The block inserts leave the other two tables alone. -/
theorem insertBlocks_yields (ok : Nat → Bool) (hand : List (Nat × Str)) (db : Db R) :
    (hand.foldl (fun db e => insertBlock excess parse db e.2 (ok e.1)) db).yieldReservoirs =
        db.yieldReservoirs ∧
      (hand.foldl (fun db e => insertBlock excess parse db e.2 (ok e.1)) db).taxLedgerEvents =
        db.taxLedgerEvents := by
  induction hand generalizing db with
  | nil => exact ⟨rfl, rfl⟩
  | cons e hand ih =>
    rw [List.foldl_cons, (ih _).1, (ih _).2]
    rw [insertBlock]
    split
    · exact ⟨rfl, rfl⟩
    · split_ifs <;> exact ⟨rfl, rfl⟩

end Blocks

section Samples

/-- The event the engine pushes for one share of difficulty one. -/
def sampleEvent (worker : Str) : Value ℚ := Telemetry.OracleEvent.toJson ⟨worker, 1, 0⟩

def sampleText (worker : Str) : Str := render (fun _ => lit "1.0") (sampleEvent worker)

/-- A reader that knows the events of these workers. -/
def sampleParse (workers : List Str) (text : Str) : Option (Value ℚ) :=
  (workers.find? (fun worker => sampleText worker == text)).map sampleEvent

def rig : Str := lit "kaspa:qz0.rig"

def emptyDb : Db ℚ := ⟨∅, [], ∅⟩

theorem sampleParse_head (worker : Str) (workers : List Str) :
    sampleParse (worker :: workers) (sampleText worker) = some (sampleEvent worker) := by
  simp [sampleParse]

theorem sampleParse_next {worker worker' : Str} (h : sampleText worker ≠ sampleText worker') :
    sampleParse [worker, worker'] (sampleText worker') = some (sampleEvent worker') := by
  simp [sampleParse, h]

theorem yieldOf_sample {parse : Str → Option (Value ℚ)} {text worker : Str}
    (hp : parse text = some (sampleEvent worker)) (hne : worker ≠ []) :
    yieldOf parse text = some ((splitDots worker).head?.getD worker, 1 * 0.000005) := by
  have hworker : ((sampleEvent worker).field (lit "worker")).asStr = some worker := rfl
  have hdiff : ((sampleEvent worker).field (lit "difficulty")).asF64 = some 1 := rfl
  simp [yieldOf, hp, hworker, hdiff, hne]

end Samples

end StratumPool.Yield
