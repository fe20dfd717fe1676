import StratumPool.Lib.Binary64
import StratumPool.Oracle
import StratumPool.Server

namespace StratumPool.BlockRecord

open Lib StratumPool.Text StratumPool.Json StratumPool.Kaspa StratumPool.Jobs StratumPool.Submit
open StratumPool.Oracle (NetworkBlock Db blockOf blockFits insertBlock storedBlock)
open StratumPool.Server (tameCrates)

/-- A block that a submission found, at its connection's difficulty. -/
structure Found where
  header : Header
  submission : Submission
  currentDiff : UInt64

namespace Found

variable (crates : Crates) (found : Found)

def event : Value Float := blockEvent crates found.header found.submission found.currentDiff

/-- The text pushed to `perennia:oracle:block_buffer`. -/
def text (float : Float → Str) : Str := render float (found.event crates)

def blockHash : Str :=
  hexBytes (crates.headerHash { found.header with nonce := found.submission.nonce }).toList

end Found

section Reading

variable {R : Type} [OfScientific R] [NatCast R] [IntCast R] (crates : Crates)
  (float : Float → Str) (parse : Str → Option (Value R)) (cast : Float → R)

/-- The reader gets back what the printer was given, its floats as numbers of
its own. -/
def ReadsBack (found : Found) : Prop :=
  parse (found.text crates float) = some ((found.event crates).map cast)

/-- What the oracle reads as the nonce. -/
def storedNonce (nonce : UInt64) : Int := if nonce.toNat < 2 ^ 63 then nonce.toNat else 0

theorem length_blockHash (found : Found) : (found.blockHash crates).length = 64 := by
  rw [Found.blockHash, hexBytes, HexText.length_flatMap, Vector.length_toList]

theorem blockHash_ne_nil (found : Found) : found.blockHash crates ≠ [] := by
  intro hnil
  have hlen := length_blockHash crates found
  rw [hnil] at hlen
  cases hlen

/-- The row that the oracle makes of a block event. -/
def Found.row (found : Found) : NetworkBlock R :=
  { blockHash := found.blockHash crates
    workerId := found.submission.worker
    nonce := storedNonce found.submission.nonce
    networkDiff := cast found.currentDiff.toFloat }

omit [OfScientific R] [NatCast R] [IntCast R] in
theorem asI64_nonce (nonce : UInt64) :
    (Value.number (R := R) (.posInt nonce.toNat)).asI64.getD 0 = storedNonce nonce := by
  rw [Value.asI64, storedNonce]
  split
  · rfl
  · rfl

theorem blockOf_event {found : Found} (h : ReadsBack crates float parse cast found) :
    blockOf parse (found.text crates float) = some (found.row crates cast) := by
  have hhash : ((found.event crates).map cast).field (lit "block_hash") =
      .string (found.blockHash crates) := rfl
  have hworker : ((found.event crates).map cast).field (lit "worker") =
      .string found.submission.worker := rfl
  have hnonce : ((found.event crates).map cast).field (lit "nonce") =
      .number (.posInt found.submission.nonce.toNat) := rfl
  have hdiff : ((found.event crates).map cast).field (lit "network_diff") =
      .number (.float (cast found.currentDiff.toFloat)) := rfl
  have hempty : (found.blockHash crates).isEmpty = false := by
    simpa using blockHash_ne_nil crates found
  rw [blockOf, h]
  simp only [hhash, hworker, hnonce, hdiff, Value.asStr, Option.getD_some, hempty, asI64_nonce]
  rfl

/-- The oracle makes a row of the event whose `BIGINT` has the bits of the
nonce, and the insert stores that row, its texts as their columns keep them,
under a new hash. -/
def Recorded (found : Found) : Prop :=
  ∃ row, blockOf parse (found.text crates float) = some row ∧
    BitVec.ofInt 64 row.nonce = found.submission.nonce.toBitVec ∧
    ∀ excess, ∀ db : Db R, db.networkBlocks.lookup (storedBlock row).blockHash = none →
      blockFits excess row = true →
        (insertBlock excess parse db (found.text crates float) true).networkBlocks.lookup
          (storedBlock row).blockHash = some (storedBlock row)

theorem storedNonce_bits_iff (nonce : UInt64) :
    BitVec.ofInt 64 (storedNonce nonce) = nonce.toBitVec ↔ nonce.toNat < 2 ^ 63 := by
  rw [storedNonce]
  split
  · rename_i h
    refine iff_of_true ?_ h
    rw [BitVec.ofInt_natCast]
    exact BitVec.ofNat_toNat _ _
  · rename_i h
    refine iff_of_false ?_ h
    intro heq
    have hnat := congrArg BitVec.toNat heq
    change 0 = nonce.toNat at hnat
    omega

theorem recorded_iff {found : Found} (h : ReadsBack crates float parse cast found) :
    Recorded crates float parse found ↔ found.submission.nonce.toNat < 2 ^ 63 := by
  have hread := blockOf_event crates float parse cast h
  rw [← storedNonce_bits_iff]
  constructor
  · rintro ⟨row, hrow, hbits, -⟩
    rw [hread] at hrow
    cases hrow
    exact hbits
  · intro hbits
    refine ⟨_, hread, hbits, fun excess db hfresh hfits => ?_⟩
    simp [insertBlock, hread, hfresh, hfits]

/-- Both nonces are recorded bit by bit, and differently if they differ. -/
structure BothRecorded (found found' : Found) : Prop where
  first : Recorded crates float parse found
  second : Recorded crates float parse found'
  distinct : found.submission.nonce ≠ found'.submission.nonce →
    (blockOf parse (found.text crates float)).map NetworkBlock.nonce ≠
      (blockOf parse (found'.text crates float)).map NetworkBlock.nonce

/-- The pipeline keeps two winning nonces, and keeps them apart, if and only if
both are below 2^63. -/
theorem nonces_recorded_iff {found found' : Found}
    (h : ReadsBack crates float parse cast found) (h' : ReadsBack crates float parse cast found') :
    BothRecorded crates float parse found found' ↔
      found.submission.nonce.toNat < 2 ^ 63 ∧ found'.submission.nonce.toNat < 2 ^ 63 := by
  rw [← recorded_iff crates float parse cast h, ← recorded_iff crates float parse cast h']
  constructor
  · intro hboth
    exact ⟨hboth.first, hboth.second⟩
  · rintro ⟨hfirst, hsecond⟩
    refine ⟨hfirst, hsecond, ?_⟩
    intro hne hsame
    obtain ⟨row, hrow, hbits, -⟩ := hfirst
    obtain ⟨row', hrow', hbits', -⟩ := hsecond
    rw [hrow, hrow'] at hsame
    apply hne
    apply UInt64.toBitVec_inj.mp
    rw [← hbits, ← hbits', Option.some.inj hsame]

end Reading

section Examples

/-- A block found at difficulty 1 by this nonce. -/
def foundBy (nonce : UInt64) : Found :=
  ⟨⟨zeroHash, 1, [], zeroHash, zeroHash, zeroHash, 0, 0, 0, 0, 0, 0, zeroHash⟩,
    ⟨lit "kaspa:qz0.rig", lit "0001", nonce⟩, 1⟩

def printOne (_ : Float) : Str := lit "1.0"

/-- A reader that knows the events of two blocks. -/
def readTwo (found found' : Found) (text : Str) : Option (Value ℚ) :=
  if text = found.text tameCrates printOne then
    some ((found.event tameCrates).map Binary64.toRat)
  else if text = found'.text tameCrates printOne then
    some ((found'.event tameCrates).map Binary64.toRat)
  else none

theorem readsBack_first (found found' : Found) :
    ReadsBack tameCrates printOne (readTwo found found') Binary64.toRat found := if_pos rfl

theorem readsBack_second {found found' : Found}
    (hne : found'.text tameCrates printOne ≠ found.text tameCrates printOne) :
    ReadsBack tameCrates printOne (readTwo found found') Binary64.toRat found' := by
  rw [ReadsBack, readTwo, if_neg hne, if_pos rfl]

/-- Nonces of the connections 1 and 2. -/
theorem low_nonces_recorded :
    let found := foundBy 0x0001000000000007
    let found' := foundBy 0x0002000000000007
    BothRecorded tameCrates printOne (readTwo found found') found found' ↔
      found.submission.nonce.toNat < 2 ^ 63 ∧ found'.submission.nonce.toNat < 2 ^ 63 :=
  nonces_recorded_iff tameCrates printOne _ Binary64.toRat (readsBack_first _ _)
    (readsBack_second (by decide +kernel))

/-- Two nonces of the connection `8000` are both recorded as zero. -/
theorem high_nonces_merged :
    ¬ ∀ crates : Crates, ∀ float : Float → Str, ∀ parse : Str → Option (Value ℚ),
      ∀ found found' : Found, ReadsBack crates float parse Binary64.toRat found →
        ReadsBack crates float parse Binary64.toRat found' →
          BothRecorded crates float parse found found' := by
  intro h
  have hfirst := readsBack_first (foundBy 0x8000000000000007) (foundBy 0x8000000000000008)
  have hsecond : ReadsBack tameCrates printOne
      (readTwo (foundBy 0x8000000000000007) (foundBy 0x8000000000000008)) Binary64.toRat
      (foundBy 0x8000000000000008) := readsBack_second (by decide +kernel)
  have hboth := h tameCrates printOne _ _ _ hfirst hsecond
  apply hboth.distinct (by decide)
  rw [blockOf_event tameCrates printOne _ Binary64.toRat hfirst,
    blockOf_event tameCrates printOne _ Binary64.toRat hsecond]
  rfl

end Examples

end StratumPool.BlockRecord
