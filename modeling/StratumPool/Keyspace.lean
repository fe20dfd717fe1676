import StratumPool.Lib.KeyStore
import StratumPool.Telemetry
import StratumPool.Treasury

namespace StratumPool.Keyspace

open Lib Lib.Runs Lib.KeyStore StratumPool.Text StratumPool.Json StratumPool.Telemetry
open StratumPool.Treasury (Balances hincrbyfloat held plain)

section Cells

/-- Every key that one of the components reads or writes. -/
inductive Cell where
  | number (key : Telemetry.Key)
  | poolWorkers
  | shareBuffer
  | telemetry
  | blockBuffer
  | syncStatus
  | miningAddress
  | spotPrice
  | lock (lockId : Str)
  | depth (pair : Str)
  | balances (wallet : Str)
  deriving DecidableEq

def Cell.key : Cell → Str
  | .number key => key.render
  | .poolWorkers => lit "pool:workers"
  | .shareBuffer => lit "perennia:oracle:share_buffer"
  | .telemetry => lit "perennia:telemetry"
  | .blockBuffer => lit "perennia:oracle:block_buffer"
  | .syncStatus => lit "perennia:node:sync_status"
  | .miningAddress => lit "perennia:stratum:mining_address"
  | .spotPrice => lit "oracle:spot:KAS_USDC"
  | .lock lockId => lit "dev:sor:lock:" ++ lockId
  | .depth pair => lit "dev:sor:depth:" ++ pair
  | .balances wallet => lit "dev:sor:treasury:balances:" ++ wallet

/-- Whatever names the miners, the wallets and the assets have: no two cells are
one key. -/
theorem Cell.key_injective : Function.Injective Cell.key := by
  intro c d h
  cases c with
  | number key =>
    cases d with
    | number key' => exact congrArg Cell.number (Key.render_injective h)
    | _ => cases key <;> simp [Cell.key, Key.render, lit] at h
  | _ =>
    cases d with
    | number key => cases key <;> simp [Cell.key, Key.render, lit] at h
    | _ => simp_all [Cell.key, lit]

end Cells

section Documents

variable {R : Type}

def rowJson (row : WorkerRow R) : Value R :=
  .object [(lit "blocksFound", .number (.posInt row.blocksFound)),
    (lit "fullIdentity", .string row.fullIdentity),
    (lit "harmonicMesh",
      .array ((List.finRange 7).map fun i => .number (.float (row.harmonicMesh i)))),
    (lit "name", .string row.name),
    (lit "sharesContributed", .number (.float row.sharesContributed)),
    (lit "status", .string row.status),
    (lit "trackingRate", .number (.float row.trackingRate)),
    (lit "walletAddress", .string row.walletAddress)]

def payloadJson (payload : Payload R) : Value R :=
  .object [(lit "totalHashrate", .number (.float payload.totalHashrate)),
    (lit "workers", .array (payload.workers.map rowJson))]

end Documents

section Stores

variable {R : Type}

/-- What the components keep in Redis, each its own. The accounting engine and
the oracle share one buffer. -/
structure Stores (R : Type) where
  telemetry : Telemetry.Redis R
  blockBuffer : List Str
  syncStatus : Option Str
  miningAddress : Option Str
  spotPrice : Option R
  locks : Str → Bool
  depths : Str → Option R
  balances : Balances R

/-- One command of one component, or one of those that others give: the operator
who sets the address, the source of the spot price, and the keys that expire. -/
inductive Write (R : Type) where
  | telemetry (cmd : Cmd R)
  | pushBlock (event : Str)
  | trimShares (count : Nat)
  | trimBlocks (count : Nat)
  | syncStatus (status : Str)
  | lock (lockId : Str)
  | depth (pair : Str) (liquidityDepth : R)
  | balance (wallet asset : Str) (increment : R)
  | miningAddress (address : Str)
  | spotPrice (price : R)
  | expireLock (lockId : Str)
  | expireDepth (pair : Str)

variable [Field R]

/-- The write as the component's own model does it. -/
def Stores.write (stores : Stores R) : Write R → Stores R
  | .telemetry cmd => { stores with telemetry := stores.telemetry.exec cmd }
  | .pushBlock event => { stores with blockBuffer := stores.blockBuffer ++ [event] }
  | .trimShares count =>
      { stores with
        telemetry := { stores.telemetry with
          shareBuffer := stores.telemetry.shareBuffer.drop count } }
  | .trimBlocks count => { stores with blockBuffer := stores.blockBuffer.drop count }
  | .syncStatus status => { stores with syncStatus := some status }
  | .lock lockId => { stores with locks := Function.update stores.locks lockId true }
  | .depth pair liquidityDepth =>
      { stores with depths := Function.update stores.depths pair (some liquidityDepth) }
  | .balance wallet asset increment =>
      { stores with balances := hincrbyfloat (plain R) stores.balances wallet asset increment }
  | .miningAddress address => { stores with miningAddress := some address }
  | .spotPrice price => { stores with spotPrice := some price }
  | .expireLock lockId => { stores with locks := Function.update stores.locks lockId false }
  | .expireDepth pair => { stores with depths := Function.update stores.depths pair none }

variable (float : R → Str)

/-- The command that goes to Redis for a write. A publication has no key. -/
def command : Write R → Option (Cell × Op Str R)
  | .telemetry (.set key value) => some (.number key, .setNumber value)
  | .telemetry (.incrByFloat key increment) => some (.number key, .incrByFloat increment)
  | .telemetry (.sadd worker) => some (.poolWorkers, .sadd worker)
  | .telemetry (.srem worker) => some (.poolWorkers, .srem worker)
  | .telemetry (.rpush event) => some (.shareBuffer, .rpush (render float event.toJson))
  | .telemetry (.setTelemetry payload) =>
      some (.telemetry, .set (render float (payloadJson payload)))
  | .telemetry (.publish _) => none
  | .pushBlock event => some (.blockBuffer, .rpush event)
  | .trimShares count => some (.shareBuffer, .ltrim count)
  | .trimBlocks count => some (.blockBuffer, .ltrim count)
  | .syncStatus status => some (.syncStatus, .set status)
  | .lock lockId => some (.lock lockId, .setNew (lit "LOCKED"))
  | .depth pair liquidityDepth => some (.depth pair, .setNumber liquidityDepth)
  | .balance wallet asset increment => some (.balances wallet, .hincrByFloat asset increment)
  | .miningAddress address => some (.miningAddress, .set address)
  | .spotPrice price => some (.spotPrice, .setNumber price)
  | .expireLock lockId => some (.lock lockId, .del)
  | .expireDepth pair => some (.depth pair, .del)

/-- The one database, by the text of the key. -/
def serve (store : Store Str Str R) (write : Write R) : Store Str Str R :=
  match command float write with
  | none => store
  | some (cell, op) => KeyStore.exec store cell.key op

def content (stores : Stores R) : Cell → Option (Entry Str R)
  | .number key => (stores.telemetry.numbers key).map .number
  | .poolWorkers => ofSet stores.telemetry.poolWorkers
  | .shareBuffer =>
      ofList (stores.telemetry.shareBuffer.map fun event => render float event.toJson)
  | .telemetry =>
      stores.telemetry.telemetry.map fun payload => .text (render float (payloadJson payload))
  | .blockBuffer => ofList stores.blockBuffer
  | .syncStatus => stores.syncStatus.map .text
  | .miningAddress => stores.miningAddress.map .text
  | .spotPrice => stores.spotPrice.map .number
  | .lock lockId => if stores.locks lockId then some (.text (lit "LOCKED")) else none
  | .depth pair => (stores.depths pair).map .number
  | .balances wallet =>
      if stores.balances.keys.any (fun key => key.1 == wallet) then
        some (.hash fun asset => stores.balances.lookup (wallet, asset))
      else none

end Stores

section Writes

variable {R : Type} [Field R]

theorem any_hincrbyfloat (balances : Balances R) (wallet asset wallet' : Str) (increment : R) :
    (hincrbyfloat (plain R) balances wallet asset increment).keys.any (fun key => key.1 == wallet') =
      (wallet == wallet' || balances.keys.any (fun key => key.1 == wallet')) := by
  rw [Bool.eq_iff_iff]
  simp only [List.any_eq_true, Bool.or_eq_true, beq_iff_eq, ← AList.mem_keys, hincrbyfloat,
    AList.mem_insert]
  constructor
  · rintro ⟨key, rfl | hmem, rfl⟩
    · exact .inl rfl
    · exact .inr ⟨key, hmem, rfl⟩
  · rintro (rfl | ⟨key, hmem, rfl⟩)
    · exact ⟨(wallet, asset), .inl rfl, rfl⟩
    · exact ⟨key, .inr hmem, rfl⟩

variable (float : R → Str)

/-- The hash of a wallet, and the hash that HINCRBYFLOAT makes of it. -/
theorem apply_balance (stores : Stores R) (wallet asset : Str) (increment : R) :
    (Op.hincrByFloat asset increment).apply (content float stores (.balances wallet)) =
      some (content float (stores.write (.balance wallet asset increment)) (.balances wallet)) := by
  have hfields : (fun asset' => (hincrbyfloat (plain R) stores.balances wallet asset increment).lookup
      (wallet, asset')) = Function.update (fun asset' => stores.balances.lookup (wallet, asset'))
        asset (some (held (plain R) stores.balances wallet asset + increment)) := by
    funext asset'
    by_cases hasset : asset' = asset
    · rw [hasset, Function.update_self, hincrbyfloat, AList.lookup_insert, Treasury.plain_add]
    · rw [Function.update_of_ne hasset, hincrbyfloat,
        AList.lookup_insert_ne (by simpa using hasset)]
  simp only [content, Stores.write, any_hincrbyfloat, beq_self_eq_true, Bool.true_or, if_true,
    hfields]
  by_cases hany : stores.balances.keys.any (fun key => key.1 == wallet) = true
  · rw [if_pos hany, Op.apply, held]
    cases stores.balances.lookup (wallet, asset) with
    | none => simp
    | some balance => simp
  · -- no field of the wallet is there, and the hash is begun
    have hnone : (fun asset' => stores.balances.lookup (wallet, asset')) = fun _ => none := by
      funext asset'
      rw [AList.lookup_eq_none]
      intro hmem
      exact hany (List.any_eq_true.mpr ⟨_, AList.mem_keys.mp hmem, beq_self_eq_true wallet⟩)
    rw [if_neg hany, Op.apply, hnone, held, congrFun hnone asset,
      Option.getD_none, Treasury.plain_absent, zero_add]

/-- A command changes its own cell as the component's model does, and is not
refused. -/
theorem apply_command (stores : Stores R) {write : Write R} {cell : Cell} {op : Op Str R}
    (h : command float write = some (cell, op)) :
    op.apply (content float stores cell) = some (content float (stores.write write) cell) := by
  cases write with
  | telemetry cmd =>
    cases cmd with
    | set key value =>
      cases h
      simp [content, Stores.write, Redis.exec, Op.apply]
    | incrByFloat key increment =>
      cases h
      cases hold : stores.telemetry.numbers key <;>
        simp [content, Stores.write, Redis.exec, Op.apply, hold]
    | sadd worker =>
      cases h
      by_cases hempty : stores.telemetry.poolWorkers = ∅ <;>
        simp [content, Stores.write, Redis.exec, Op.apply, ofSet, hempty]
    | srem worker =>
      cases h
      simp only [content, Stores.write, Redis.exec]
      by_cases hempty : stores.telemetry.poolWorkers = ∅
      · simp [Op.apply, ofSet, hempty]
      · rw [ofSet, if_neg hempty]
        rfl
    | rpush event =>
      cases h
      cases hold : stores.telemetry.shareBuffer <;>
        simp [content, Stores.write, Redis.exec, Op.apply, ofList, hold]
    | setTelemetry payload => cases h; rfl
    | publish payload => cases h
  | pushBlock event =>
    cases h
    cases hold : stores.blockBuffer <;> simp [content, Stores.write, Op.apply, ofList, hold]
  | trimShares count =>
    cases h
    cases hold : stores.telemetry.shareBuffer <;>
      simp [content, Stores.write, Op.apply, ofList, hold]
  | trimBlocks count =>
    cases h
    cases hold : stores.blockBuffer <;> simp [content, Stores.write, Op.apply, ofList, hold]
  | lock lockId =>
    cases h
    cases hold : stores.locks lockId <;> simp [content, Stores.write, Op.apply, hold]
  | depth pair liquidityDepth => cases h; simp [content, Stores.write, Op.apply]
  | balance wallet asset increment =>
    cases h
    exact apply_balance float stores wallet asset increment
  | expireLock lockId => cases h; simp [content, Stores.write, Op.apply]
  | expireDepth pair => cases h; simp [content, Stores.write, Op.apply]
  | syncStatus status => cases h; rfl
  | miningAddress address => cases h; rfl
  | spotPrice price => cases h; rfl

/-- No other cell sees the write. -/
theorem content_other (stores : Stores R) {write : Write R} {cell : Cell} {op : Op Str R}
    (h : command float write = some (cell, op)) {other : Cell} (hne : other ≠ cell) :
    content float (stores.write write) other = content float stores other := by
  cases write with
  | telemetry cmd =>
    cases cmd with
    | set key value =>
      cases h
      cases other with
      | number key' =>
        have hkey : key' ≠ key := fun he => hne (congrArg Cell.number he)
        simp [content, Stores.write, Redis.exec, hkey]
      | _ => rfl
    | incrByFloat key increment =>
      cases h
      cases other with
      | number key' =>
        have hkey : key' ≠ key := fun he => hne (congrArg Cell.number he)
        simp [content, Stores.write, Redis.exec, hkey]
      | _ => rfl
    | publish payload => cases h
    | _ =>
      cases h
      cases other <;> first | rfl | exact absurd rfl hne
  | lock lockId =>
    cases h
    cases other with
    | lock lockId' =>
      have hlock : lockId' ≠ lockId := fun he => hne (congrArg Cell.lock he)
      simp [content, Stores.write, hlock]
    | _ => rfl
  | expireLock lockId =>
    cases h
    cases other with
    | lock lockId' =>
      have hlock : lockId' ≠ lockId := fun he => hne (congrArg Cell.lock he)
      simp [content, Stores.write, hlock]
    | _ => rfl
  | depth pair liquidityDepth =>
    cases h
    cases other with
    | depth pair' =>
      have hpair : pair' ≠ pair := fun he => hne (congrArg Cell.depth he)
      simp [content, Stores.write, hpair]
    | _ => rfl
  | expireDepth pair =>
    cases h
    cases other with
    | depth pair' =>
      have hpair : pair' ≠ pair := fun he => hne (congrArg Cell.depth he)
      simp [content, Stores.write, hpair]
    | _ => rfl
  | balance wallet asset increment =>
    cases h
    cases other with
    | balances wallet' =>
      have hwallet : wallet' ≠ wallet := fun he => hne (congrArg Cell.balances he)
      have hfields : ∀ asset', (hincrbyfloat (plain R) stores.balances wallet asset increment).lookup
          (wallet', asset') = stores.balances.lookup (wallet', asset') := by
        intro asset'
        rw [hincrbyfloat, AList.lookup_insert_ne]
        exact fun he => hwallet (congrArg Prod.fst he)
      simp only [content, Stores.write, any_hincrbyfloat, beq_false_of_ne hwallet.symm,
        Bool.false_or, hfields]
    | _ => rfl
  | _ =>
    cases h
    cases other <;> first | rfl | exact absurd rfl hne

theorem content_unkeyed (stores : Stores R) {write : Write R} (h : command float write = none) :
    content float (stores.write write) = content float stores := by
  cases write with
  | telemetry cmd =>
    cases cmd with
    | publish payload =>
      funext cell
      cases cell <;> rfl
    | _ => cases h
  | _ => cases h

/-- What the database and the components' own stores have in common. -/
def Faithful (store : Store Str Str R) (stores : Stores R) : Prop :=
  Holds Cell.key (content float stores) store

theorem faithful_write {store : Store Str Str R} {stores : Stores R}
    (h : Faithful float store stores) (write : Write R) :
    Faithful float (serve float store write) (stores.write write) ∧
      (serve float store write).refused = store.refused := by
  cases hcommand : command float write with
  | none =>
    rw [serve, hcommand, Faithful, content_unkeyed float stores hcommand]
    exact ⟨h, rfl⟩
  | some command =>
    obtain ⟨cell, op⟩ := command
    have happly := apply_command float stores hcommand
    have hupdate : Function.update (content float stores) cell
        (content float (stores.write write) cell) = content float (stores.write write) := by
      funext other
      by_cases hother : other = cell
      · rw [hother, Function.update_self]
      · rw [Function.update_of_ne hother, content_other float stores hcommand hother]
    have hexec := h.exec Cell.key_injective happly
    rw [hupdate] at hexec
    rw [serve, hcommand]
    exact hexec

theorem faithful_run {store : Store Str Str R} {stores : Stores R}
    (h : Faithful float store stores) (writes : List (Write R)) :
    Faithful float (run (serve float) store writes) (run Stores.write stores writes) ∧
      (run (serve float) store writes).refused = store.refused := by
  induction writes generalizing store stores with
  | nil => exact ⟨h, rfl⟩
  | cons write writes ih =>
    obtain ⟨hnext, hrefused⟩ := faithful_write float h write
    obtain ⟨hafter, hall⟩ := ih hnext
    exact ⟨hafter, hall.trans hrefused⟩

/-- A pipeline of the engine is its commands one by one. -/
theorem telemetry_writes (stores : Stores R) (pipeline : List (Cmd R)) :
    run Stores.write stores (pipeline.map .telemetry) =
      { stores with telemetry := stores.telemetry.execAll pipeline } := by
  induction pipeline generalizing stores with
  | nil => rfl
  | cons cmd pipeline ih =>
    rw [List.map_cons, run_cons, ih]
    rfl

/-- However the commands of the components come, the one Redis has at every key
what the component it belongs to has written there, as if each had a store to
itself, and it refuses no command for the type that it finds. A pipeline of the
engine that follows leaves at the ledger of a wallet what the engine counts. -/
theorem shared_store_faithful {store : Store Str Str R} {stores : Stores R}
    (h : Faithful float store stores) (writes : List (Write R)) (pipeline : List (Cmd R)) :
    let after := run (serve float) store (writes ++ pipeline.map .telemetry)
    Faithful float after { run Stores.write stores writes with
        telemetry := (run Stores.write stores writes).telemetry.execAll pipeline } ∧
      after.refused = store.refused ∧ ∀ wallet,
        after.entries (lit "perennia:ledger:wallet:" ++ wallet) =
          (((run Stores.write stores writes).telemetry.execAll pipeline).numbers
            (.ledgerWallet wallet)).map .number := by
  intro after
  obtain ⟨hall, hrefused⟩ := faithful_run float h (writes ++ pipeline.map .telemetry)
  rw [run_append stores, telemetry_writes] at hall
  exact ⟨hall, hrefused, fun wallet => hall (.number (.ledgerWallet wallet))⟩

end Writes

section Examples

def emptyStores : Stores ℚ :=
  ⟨⟨fun _ => none, ∅, [], none, []⟩, [], none, none, none, fun _ => false,
    fun _ => none, ∅⟩

theorem faithful_empty : Faithful (fun _ => []) KeyStore.empty emptyStores := by
  intro cell
  cases cell <;> rfl

/-- A miner whose name is another's key, and a wallet that is one. -/
def hostileWrites : List (Write ℚ) :=
  [.telemetry (.incrByFloat (.workerShares (lit "pool:hashrate")) 1),
    .telemetry (.sadd (lit "perennia:oracle:share_buffer")),
    .telemetry (.rpush ⟨lit "pool:workers", 1, 0⟩),
    .balance (lit "dev:sor:lock:") (lit "KAS") 5, .trimShares 1]

/-- The ledger entries of two wallets, one of them named as a key. -/
def hostilePipeline : List (Cmd ℚ) :=
  [.incrByFloat (.ledgerWallet (lit "pool:hashrate")) 1,
    .incrByFloat (.ledgerWallet (lit "kaspa:qz0")) 2, .publish ⟨0, []⟩]

theorem hostile_names_faithful :
    let after := run (serve fun _ => []) (KeyStore.empty : Store Str Str ℚ)
      (hostileWrites ++ hostilePipeline.map .telemetry)
    Faithful (fun _ => []) after { run Stores.write emptyStores hostileWrites with
        telemetry := (run Stores.write emptyStores hostileWrites).telemetry.execAll
          hostilePipeline } ∧
      after.refused = (KeyStore.empty : Store Str Str ℚ).refused ∧ ∀ wallet,
        after.entries (lit "perennia:ledger:wallet:" ++ wallet) =
          (((run Stores.write emptyStores hostileWrites).telemetry.execAll
            hostilePipeline).numbers (.ledgerWallet wallet)).map .number :=
  shared_store_faithful (fun _ => []) faithful_empty hostileWrites hostilePipeline

end Examples

end StratumPool.Keyspace
