import StratumPool.Accounting
import StratumPool.BlockRecord
import StratumPool.BlockRelay
import StratumPool.Delivery
import StratumPool.Reader
import StratumPool.Lib.HandOffBooks

namespace StratumPool.BlockTable

open Lib Lib.Runs StratumPool.Text StratumPool.Json StratumPool.Kaspa StratumPool.Submit
open Lib.HandOff (spilledOver balanced_run)
open StratumPool.Server (verdictOf)
open StratumPool.BlockRecord (Found ReadsBack blockOf_event)
open StratumPool.Oracle (Db NetworkBlock blockOf blockFits insertBlock storedBlock)
open StratumPool.OracleRuns (blockAct block_refines pushedBlocks)
open StratumPool.Accounting (GivesOnly connections_step)

/-- The server with the oracle. `tasks` are the events of found blocks whose
tasks are spawned and have not come to their `RPUSH`. -/
structure State (Body R : Type) where
  server : Server.State Body
  tasks : List Found
  oracle : Oracle.State R

/-- The tasks come to their `RPUSH` in any order, and it may fail. -/
inductive Action (Body R : Type) where
  | server (action : Server.Action Body)
  | push (index : Nat) (ok : Bool)
  | oracle (action : Oracle.Action R)

def boot {R : Type} (Body : Type) (db : Db R) : State Body R :=
  ⟨Server.boot Body, [], Oracle.boot db⟩

variable {Body R : Type} [Field R]

section Steps

variable (crates : Crates) (float : Float → Str) (scan : Str → Option R)

/-- The block that a step of the server finds. -/
def foundIn (server : Server.State Body) (action : Server.Action Body) : Option Found :=
  match verdictOf crates float server action with
  | some (conn, submission, .networkBlock header _) => some ⟨header, submission, conn.currentDiff⟩
  | _ => none

def spawned (state : State Body R) : Action Body R → List Found
  | .server action => (foundIn crates float state.server action).toList
  | _ => []

def pushedBy (state : State Body R) : Action Body R → List Found
  | .push index true => state.tasks[index]?.toList
  | _ => []

def droppedBy (state : State Body R) : Action Body R → List Found
  | .push index false => state.tasks[index]?.toList
  | _ => []

/-- Only these tasks push blocks. -/
def oracleActs (state : State Body R) : Action Body R → List (Oracle.Action R)
  | .server _ => []
  | .push index ok =>
      (pushedBy state (.push index ok)).map (fun found => .pushBlock (found.text crates float))
  | .oracle (.pushBlock _) => []
  | .oracle action => [action]

def step (state : State Body R) (a : Action Body R) : State Body R :=
  { server :=
      match a with
      | .server action => Server.step crates float state.server action
      | _ => state.server
    tasks :=
      match a with
      | .push index _ => state.tasks.eraseIdx index
      | a => state.tasks ++ spawned crates float state a
    oracle := run (Oracle.step .cut (readText scan)) state.oracle (oracleActs crates float state a) }

def foundOver (db : Db R) (as : List (Action Body R)) : List Found :=
  expand (step crates float scan) (spawned crates float) (boot Body db) as

def pushedOver (db : Db R) (as : List (Action Body R)) : List Found :=
  expand (step crates float scan) pushedBy (boot Body db) as

/-- The blocks whose `RPUSH` failed. -/
def droppedOver (db : Db R) (as : List (Action Body R)) : List Found :=
  expand (step crates float scan) droppedBy (boot Body db) as

def oracleOver (db : Db R) (as : List (Action Body R)) : List (Oracle.Action R) :=
  expand (step crates float scan) (oracleActs crates float) (boot Body db) as

theorem oracle_run (db : Db R) (as : List (Action Body R)) :
    (run (step crates float scan) (boot Body db) as).oracle =
      run (Oracle.step .cut (readText scan)) (Oracle.boot db) (oracleOver crates float scan db as) := by
  have hexpands : Expands (step crates float scan) (Oracle.step .cut (readText scan))
      (@State.oracle Body R) (oracleActs crates float) := fun _ _ => rfl
  exact hexpands.run_eq (boot Body db) as

end Steps

section Tasks

variable (crates : Crates) (float : Float → Str) (scan : Str → Option R)

/-- Only a push adds to what was ever in the list. -/
theorem pushed_oracle (parse : Str → Option (Value R)) (oracle : Oracle.State R)
    (a : Oracle.Action R) :
    (Oracle.step .cut parse oracle a).block.pushed.map Prod.snd =
      oracle.block.pushed.map Prod.snd ++ pushedBlocks a := by
  rw [block_refines .cut parse oracle a, ← OracleRuns.pushes_blockAct .cut parse oracle a]
  cases blockAct .cut parse oracle a with
  | none => exact (List.append_nil _).symm
  | some b => exact HandOff.pushed_step oracle.block b

theorem tasks_step (state : State Body R) (a : Action Body R) :
    ((step crates float scan state a).tasks ++ pushedBy state a ++ droppedBy state a).Perm
      (state.tasks ++ spawned crates float state a) := by
  cases a with
  | server action => simp [step, pushedBy, droppedBy]
  | oracle action => simp [step, pushedBy, droppedBy]
  | push index ok =>
    have herased : (state.tasks.eraseIdx index ++ state.tasks[index]?.toList).Perm state.tasks := by
      cases htask : state.tasks[index]? with
      | none =>
        have hlen : state.tasks.length ≤ index := List.getElem?_eq_none_iff.mp htask
        simp [List.eraseIdx_of_length_le hlen]
      | some found =>
        obtain ⟨hindex, rfl⟩ := List.getElem?_eq_some_iff.mp htask
        exact List.perm_append_comm.trans (List.getElem_cons_eraseIdx_perm hindex)
    cases ok <;> simpa [step, pushedBy, droppedBy, spawned] using herased

/-- The task of every block that was found is still to run, or it has run, once. -/
theorem tasks_run (db : Db R) (as : List (Action Body R)) :
    ((run (step crates float scan) (boot Body db) as).tasks ++ pushedOver crates float scan db as ++
        droppedOver crates float scan db as).Perm (foundOver crates float scan db as) := by
  induction as using List.reverseRecOn with
  | nil => exact .refl _
  | append_singleton pre a ih =>
    have hstep := tasks_step crates float scan (run (step crates float scan) (boot Body db) pre) a
    rw [run_concat, pushedOver, droppedOver, foundOver, expand_concat, expand_concat, expand_concat]
    rw [pushedOver, droppedOver, foundOver] at ih
    generalize run (step crates float scan) (boot Body db) pre = state at ih hstep ⊢
    rw [← Multiset.coe_eq_coe] at ih hstep ⊢
    simp only [← Multiset.coe_add] at ih hstep ⊢
    generalize (expand (step crates float scan) pushedBy (boot Body db) pre : Multiset Found) =
      pushed at ih ⊢
    generalize (expand (step crates float scan) droppedBy (boot Body db) pre : Multiset Found) =
      dropped at ih ⊢
    calc ((step crates float scan state a).tasks : Multiset Found) +
          (pushed + pushedBy state a) + (dropped + droppedBy state a)
        = ((step crates float scan state a).tasks + pushedBy state a + droppedBy state a) +
            (pushed + dropped) := by abel
      _ = (state.tasks + pushed + dropped) + spawned crates float state a := by
        rw [hstep]
        abel
      _ = _ := by rw [ih]

/-- What is in the oracle's list came there from a task. -/
theorem pushed_run (db : Db R) (as : List (Action Body R)) :
    (run (step crates float scan) (boot Body db) as).oracle.block.pushed.map Prod.snd =
      (pushedOver crates float scan db as).map (fun found => found.text crates float) := by
  induction as using List.reverseRecOn with
  | nil => rfl
  | append_singleton pre a ih =>
    rw [run_concat, pushedOver, expand_concat, List.map_append, ← pushedOver, ← ih]
    generalize run (step crates float scan) (boot Body db) pre = state
    have hquiet : ∀ b : Oracle.Action R, pushedBlocks b = [] →
        (Oracle.step .cut (readText scan) state.oracle b).block.pushed.map Prod.snd =
          state.oracle.block.pushed.map Prod.snd ++ [] := by
      intro b hb
      rw [pushed_oracle, hb]
    cases a with
    | server action => exact (List.append_nil _).symm
    | push index ok =>
      cases ok with
      | false => exact (List.append_nil _).symm
      | true =>
        rw [step, oracleActs]
        cases htask : state.tasks[index]? with
        | none => simp [pushedBy, htask]
        | some found => simp [pushedBy, htask, pushed_oracle, pushedBlocks]
    | oracle action =>
      cases action with
      | pushBlock rawBlock => exact (List.append_nil _).symm
      | pushShare rawEvt => exact hquiet (.pushShare rawEvt) rfl
      | readShares ok => exact hquiet (.readShares ok) rfl
      | trimShares ok => exact hquiet (.trimShares ok) rfl
      | applyShares order spot tx => exact hquiet (.applyShares order spot tx) rfl
      | readBlocks ok => exact hquiet (.readBlocks ok) rfl
      | trimBlocks ok => exact hquiet (.trimBlocks ok) rfl
      | applyBlocks ok => exact hquiet (.applyBlocks ok) rfl

end Tasks

section Rows

variable (parse : Str → Option (Value R))

omit [Field R] in
theorem pushed_grows (h : HandOff Str) (a : HandOff.Act Str) :
    h.pushed <+: (HandOff.step h a).pushed := by
  cases a with
  | push x => exact List.prefix_append _ _
  | read limit ok =>
    simp only [HandOff.step, HandOff.read]
    split <;> exact List.prefix_rfl
  | trim ok =>
    simp only [HandOff.step, HandOff.trim]
    split <;> exact List.prefix_rfl
  | settle took =>
    simp only [HandOff.step, HandOff.settle]
    split <;> exact List.prefix_rfl

/-- The row that the table stores of an event. -/
def RowOf (rawBlock : Str) (row : NetworkBlock R) : Prop :=
  ∃ block, blockOf parse rawBlock = some block ∧ blockFits .cut block = true ∧
    storedBlock block = row

/-- An insert keeps each row that is there, and adds at most the row of its event. -/
theorem insertBlock_rows (db : Db R) (rawBlock : Str) (ok : Bool) (hash : Str) :
    (∀ row, db.networkBlocks.lookup hash = some row →
        (insertBlock .cut parse db rawBlock ok).networkBlocks.lookup hash = some row) ∧
      ∀ row, (insertBlock .cut parse db rawBlock ok).networkBlocks.lookup hash = some row →
        db.networkBlocks.lookup hash = some row ∨
          RowOf parse rawBlock row ∧ row.blockHash = hash := by
  rw [insertBlock]
  cases hblock : blockOf parse rawBlock with
  | none => exact ⟨fun _ h => h, fun _ h => .inl h⟩
  | some block =>
    split
    · exact ⟨fun _ h => h, fun _ h => .inl h⟩
    · rename_i found hfound
      cases hfound
      split
      · rename_i hnew
        by_cases hhash : hash = (storedBlock block).blockHash
        · subst hhash
          rw [Option.isNone_iff_eq_none.mp hnew.2.2, AList.lookup_insert]
          refine ⟨by simp, fun row hrow => .inr ?_⟩
          cases hrow
          exact ⟨⟨block, hblock, hnew.2.1, rfl⟩, rfl⟩
        · rw [AList.lookup_insert_ne hhash]
          exact ⟨fun _ h => h, fun _ h => .inl h⟩
      · exact ⟨fun _ h => h, fun _ h => .inl h⟩

theorem insertBlocks_rows (ok : Nat → Bool) (hand : List (Nat × Str)) (db : Db R) (hash : Str) :
    let after := hand.foldl (fun db e => insertBlock .cut parse db e.2 (ok e.1)) db
    (∀ row, db.networkBlocks.lookup hash = some row →
        after.networkBlocks.lookup hash = some row) ∧
      ∀ row, after.networkBlocks.lookup hash = some row →
        db.networkBlocks.lookup hash = some row ∨
          ∃ e ∈ hand, RowOf parse e.2 row ∧ row.blockHash = hash := by
  induction hand generalizing db with
  | nil => exact ⟨fun _ h => h, fun _ h => .inl h⟩
  | cons e hand ih =>
    obtain ⟨hstay, hnew⟩ := insertBlock_rows parse db e.2 (ok e.1) hash
    obtain ⟨hstays, hnews⟩ := ih (insertBlock .cut parse db e.2 (ok e.1))
    refine ⟨fun row h => hstays row (hstay row h), fun row h => ?_⟩
    obtain h | ⟨f, hf, hrow⟩ := hnews row h
    · obtain h | hrow := hnew row h
      · exact .inl h
      · exact .inr ⟨e, List.mem_cons_self, hrow⟩
    · exact .inr ⟨f, List.mem_cons_of_mem e hf, hrow⟩

/-- Only the block half of a tick touches the table. -/
theorem networkBlocks_step (oracle : Oracle.State R) {a : Oracle.Action R}
    (ha : ∀ ok, a ≠ .applyBlocks ok) :
    (Oracle.step .cut parse oracle a).db.networkBlocks = oracle.db.networkBlocks := by
  cases a with
  | applyBlocks ok => exact absurd rfl (ha ok)
  | applyShares order spot tx =>
    simp only [Oracle.step, Oracle.applyShares]
    split
    · exact Reflection.creditShares_blocks .cut parse oracle.db order _ spot tx
    · rfl
  | readShares ok =>
    simp only [Oracle.step, Oracle.readShares]
    split <;> rfl
  | readBlocks ok =>
    simp only [Oracle.step, Oracle.readBlocks]
    split <;> rfl
  | _ => rfl

/-- The rows of the table are those it had, and rows of events that were in the
list. -/
def Genuine (db : Db R) (oracle : Oracle.State R) : Prop :=
  ∀ hash row, oracle.db.networkBlocks.lookup hash = some row →
    db.networkBlocks.lookup hash = some row ∨
      ∃ e ∈ oracle.block.pushed, RowOf parse e.2 row ∧ row.blockHash = hash

/-- What one step does to the table. -/
theorem rows_step (oracle : Oracle.State R) (a : Oracle.Action R) (hash : Str) :
    (∀ row, oracle.db.networkBlocks.lookup hash = some row →
        (Oracle.step .cut parse oracle a).db.networkBlocks.lookup hash = some row) ∧
      ∀ row, (Oracle.step .cut parse oracle a).db.networkBlocks.lookup hash = some row →
        oracle.db.networkBlocks.lookup hash = some row ∨
          ∃ e ∈ oracle.block.hand, RowOf parse e.2 row ∧ row.blockHash = hash := by
  by_cases ha : ∀ ok, a ≠ .applyBlocks ok
  · rw [networkBlocks_step parse oracle ha]
    exact ⟨fun _ h => h, fun _ h => .inl h⟩
  · obtain ⟨ok, rfl⟩ := not_forall_not.mp ha
    simp only [Oracle.step, Oracle.applyBlocks]
    split
    · exact insertBlocks_rows parse ok oracle.block.hand oracle.db hash
    · exact ⟨fun _ h => h, fun _ h => .inl h⟩

theorem genuine_step {db : Db R} {oracle : Oracle.State R} (hi : HandOff.Inv oracle.block)
    (h : Genuine parse db oracle) (a : Oracle.Action R) :
    Genuine parse db (Oracle.step .cut parse oracle a) := by
  have hgrows : oracle.block.pushed ⊆ (Oracle.step .cut parse oracle a).block.pushed := by
    rw [block_refines .cut parse oracle a]
    cases blockAct .cut parse oracle a with
    | none => exact fun _ he => he
    | some b => exact (pushed_grows oracle.block b).subset
  intro hash row hrow
  obtain hold | ⟨e, he, hevent⟩ := (rows_step parse oracle a hash).2 row hrow
  · obtain hbefore | ⟨e, he, hevent⟩ := h hash row hold
    · exact .inl hbefore
    · exact .inr ⟨e, hgrows he, hevent⟩
  · exact .inr ⟨e, hgrows (hi.hand_pushed e he), hevent⟩

theorem genuine_run (db : Db R) (as : List (Oracle.Action R)) :
    Genuine parse db (run (Oracle.step .cut parse) (Oracle.boot db) as) := by
  have hinv := HandOff.always_inv (block_refines .cut parse) (s := Oracle.boot db) rfl as
  induction as using List.reverseRecOn with
  | nil => exact fun hash row h => .inl h
  | append_singleton pre a ih =>
    have hbefore := ih (fun p hp => hinv p (hp.trans (List.prefix_append _ _)))
    rw [run_concat]
    exact genuine_step parse (hinv pre (List.prefix_append _ _)) hbefore a

/-- No row is ever changed or removed. -/
theorem rows_stay (oracle : Oracle.State R) (as : List (Oracle.Action R)) {hash : Str}
    {row : NetworkBlock R} (h : oracle.db.networkBlocks.lookup hash = some row) :
    (run (Oracle.step .cut parse) oracle as).db.networkBlocks.lookup hash = some row := by
  induction as generalizing oracle with
  | nil => exact h
  | cons a as ih => exact ih _ ((rows_step parse oracle a hash).1 row h)

end Rows

section Readings

variable (crates : Crates) (float : Float → Str) (scan : Str → Option R) (cast : Float → R)

/-- The scanner reads what is printed for the difficulty as the number that it is. -/
def Printed (d : UInt64) : Prop := Prints (fun _ => float d.toFloat) scan (cast d.toFloat)

def Gives : Action Body R → Prop
  | .server action => GivesOnly (Printed float scan cast) action
  | _ => True

variable {float scan cast}

omit [Field R] in
/-- The text of an event is read back. -/
theorem readsBack_of_printed {found : Found} (h : Printed float scan cast found.currentDiff) :
    ReadsBack crates float (readText scan) cast found := by
  have htext : found.text crates float =
      render (fun _ => float found.currentDiff.toFloat) ((found.event crates).map cast) := rfl
  rw [ReadsBack, htext]
  apply readText_render
  simp only [Found.event, blockEvent, Value.map, Value.mapFields, Number.map, Readable,
    ReadableFields, Number.Readable, and_true, true_and]
  exact h

omit [Field R] in
theorem foundIn_printed {server : Server.State Body} {action : Server.Action Body} {found : Found}
    (h : ∀ conn ∈ server.connections, Printed float scan cast conn.currentDiff)
    (hfound : foundIn crates float server action = some found) :
    Printed float scan cast found.currentDiff := by
  rw [foundIn] at hfound
  split at hfound
  · rename_i conn submission header rpcBlock hverdict
    cases hfound
    cases action with
    | submit index params =>
      simp only [verdictOf, Option.bind_eq_bind, Option.bind_eq_some_iff] at hverdict
      obtain ⟨c, hc, s, -, he⟩ := hverdict
      obtain ⟨rfl, -⟩ := Prod.mk.inj (Option.some.inj he)
      exact h c (List.mem_of_getElem? hc)
    | _ => cases hverdict
  · cases hfound

omit [Field R] in
theorem foundIn_worker {server : Server.State Body} {action : Server.Action Body} {found : Found}
    (hfound : foundIn crates float server action = some found) :
    ∃ text, found.submission.worker = trim text := by
  rw [foundIn] at hfound
  split at hfound
  · rename_i conn submission header rpcBlock hverdict
    cases hfound
    cases action with
    | submit index params =>
      simp only [verdictOf, Option.bind_eq_bind, Option.bind_eq_some_iff] at hverdict
      obtain ⟨c, -, s, hread, he⟩ := hverdict
      obtain ⟨-, he⟩ := Prod.mk.inj (Option.some.inj he)
      obtain ⟨rfl, -⟩ := Prod.mk.inj he
      rw [readSubmission.eq_def] at hread
      split at hread
      · cases hread
        exact ⟨_, rfl⟩
      · cases hread
    | _ => cases hverdict
  · cases hfound

theorem worker_run (db : Db R) (as : List (Action Body R)) :
    ∀ found ∈ foundOver crates float scan db as, ∃ text, found.submission.worker = trim text := by
  apply forall_expand
  intro state a found hfound
  cases a with
  | server action => exact foundIn_worker crates (Option.mem_toList.mp hfound)
  | push index ok => cases hfound
  | oracle action => cases hfound

omit [Field R] in
theorem storedHash_row (cast : Float → R) (found : Found) :
    (storedBlock (found.row crates cast)).blockHash = found.blockHash crates :=
  Yield.storedVarchar_of_short (BlockRecord.length_blockHash crates found).le

omit [Field R] in
/-- A row of a found block that fits its columns is stored as it is: the name of
its worker ends in no space. -/
theorem storedBlock_row {found : Found} (hworker : ∃ text, found.submission.worker = trim text)
    (hfits : blockFits .cut (found.row (R := R) crates cast) = true) :
    storedBlock (found.row crates cast) = found.row (R := R) crates cast := by
  obtain ⟨text, htext⟩ := hworker
  have hfitsWorker := (Bool.and_eq_true_iff.mp hfits).2
  simp only [Found.row, htext] at hfitsWorker
  rw [storedBlock, NetworkBlock.mk.injEq]
  refine ⟨storedHash_row crates cast found, ?_, rfl, rfl⟩
  simp only [Found.row, htext]
  exact Yield.storedVarchar_of_trim hfitsWorker

theorem printed_run (db : Db R) {as : List (Action Body R)}
    (has : ∀ a ∈ as, Gives float scan cast a) :
    ∀ found ∈ foundOver crates float scan db as, Printed float scan cast found.currentDiff := by
  have hconnections : Always (step crates float scan)
      (fun state => ∀ conn ∈ state.server.connections, Printed float scan cast conn.currentDiff)
      (boot Body db) as := by
    refine Guarded.always (guarded_of_forall (fun _ => has)) (by simp [boot, Server.boot]) ?_
    intro state a h ha
    cases a with
    | server action => exact connections_step crates float h ha
    | push index ok => exact h
    | oracle action => exact h
  induction as using List.reverseRecOn with
  | nil => simp [foundOver, expand]
  | append_singleton pre a ih =>
    have hbefore := ih (fun b hb => has b (List.mem_append_left _ hb))
      (fun p hp => hconnections p (hp.trans (List.prefix_append _ _)))
    have hhere := hconnections pre (List.prefix_append _ _)
    rw [foundOver, expand_concat]
    refine List.forall_mem_append.mpr ⟨hbefore, ?_⟩
    intro found hfound
    cases a with
    | server action =>
      exact foundIn_printed crates hhere (Option.mem_toList.mp hfound)
    | push index ok => cases hfound
    | oracle action => cases hfound

end Readings

section Table

variable (crates : Crates) (float : Float → Str) (scan : Str → Option R) (cast : Float → R)

/-- The events that are trimmed from the list and make no row. -/
def spilt (db : Db R) (as : List (Action Body R)) : List (Nat × Str) :=
  spilledOver (Oracle.step .cut (readText scan)) Oracle.State.block (blockAct .cut (readText scan))
    (Oracle.boot db) (oracleOver crates float scan db as)

/-- The table has nothing but found blocks, for good, and each of these has a
row or is where a failure or the next tick has left it. -/
structure Tabled (db : Db R) (as : List (Action Body R)) : Prop where
  once : ((run (step crates float scan) (boot Body db) as).tasks ++
    pushedOver crates float scan db as ++ droppedOver crates float scan db as).Perm
      (foundOver crates float scan db as)
  genuine : ∀ hash row, (run (step crates float scan) (boot Body db) as).oracle.db.networkBlocks.lookup
      hash = some row →
    db.networkBlocks.lookup hash = some row ∨ ∃ found ∈ foundOver crates float scan db as,
      row = found.row crates cast ∧ hash = found.blockHash crates
  permanent : ∀ pre, pre <+: as → ∀ hash row,
    (run (step crates float scan) (boot Body db) pre).oracle.db.networkBlocks.lookup hash =
        some row →
      (run (step crates float scan) (boot Body db) as).oracle.db.networkBlocks.lookup hash =
        some row
  placed : ∀ found ∈ foundOver crates float scan db as,
    let state := run (step crates float scan) (boot Body db) as
    let text := found.text crates float
    found ∈ state.tasks ∨ found ∈ droppedOver crates float scan db as ∨
      text ∈ state.oracle.block.buffer.map Prod.snd ∨
      text ∈ state.oracle.block.loose.map Prod.snd ∨
      text ∈ (spilt crates float scan db as).map Prod.snd ∨
      (state.oracle.db.networkBlocks.lookup (found.blockHash crates)).isSome = true

variable {float scan cast}

/-- At every time of every run, in whatever order the tasks come to Redis and
whatever fails, the table of blocks is that of the blocks that were found. -/
theorem blocks_tabled (db : Db R) {as : List (Action Body R)}
    (has : ∀ a ∈ as, Gives float scan cast a) : Tabled crates float scan cast db as := by
  have honce := tasks_run crates float scan db as
  have hpushed := pushed_run crates float scan db as
  have horacle := oracle_run crates float scan db as
  have hread : ∀ found ∈ foundOver crates float scan db as,
      blockOf (readText scan) (found.text crates float) = some (found.row crates cast) := by
    intro found hfound
    apply blockOf_event
    exact readsBack_of_printed crates (printed_run crates db has found hfound)
  have hsource : ∀ found ∈ pushedOver crates float scan db as,
      found ∈ foundOver crates float scan db as := by
    intro found hfound
    exact honce.subset (List.mem_append_left _ (List.mem_append_right _ hfound))
  refine ⟨honce, ?_, ?_, ?_⟩
  · intro hash row hrow
    rw [horacle] at hrow hpushed
    obtain hold | ⟨e, he, hevent, rfl⟩ := genuine_run (readText scan) db _ hash row hrow
    · exact .inl hold
    · right
      have htext : e.2 ∈ (pushedOver crates float scan db as).map
          (fun found => found.text crates float) := by
        rw [← hpushed]
        exact List.mem_map_of_mem he
      obtain ⟨found, hfound, htext⟩ := List.mem_map.mp htext
      obtain ⟨block, hblock, hfits, rfl⟩ := hevent
      rw [← htext, hread found (hsource found hfound)] at hblock
      cases hblock
      have hstored := storedBlock_row crates (worker_run crates db as found (hsource found hfound)) hfits
      rw [hstored]
      exact ⟨found, hsource found hfound, rfl, rfl⟩
  · rintro pre ⟨rest, rfl⟩ hash row hrow
    have hexpands : Expands (step crates float scan) (Oracle.step .cut (readText scan))
        (@State.oracle Body R) (oracleActs crates float) := fun _ _ => rfl
    rw [run_append, hexpands.run_eq]
    exact rows_stay (readText scan) _ _ hrow
  · intro found hfound state text
    obtain htask | hdropped := List.mem_append.mp (honce.symm.subset hfound)
    · obtain htask | hdone := List.mem_append.mp htask
      · exact .inl htask
      · right
        right
        have hin : text ∈ state.oracle.block.pushed.map Prod.snd := by
          rw [hpushed]
          exact List.mem_map_of_mem hdone
        have hbooks := balanced_run (fun x : Str => ({x} : Multiset Str))
          (block_refines .cut (readText scan)) (s := Oracle.boot db) rfl
          (oracleOver crates float scan db as)
        have htables := (Reflection.tables_reflect_applied .cut (readText scan) db
          (oracleOver crates float scan db as)).last.blocks
        rw [← horacle] at hbooks htables
        obtain happlied | hbuffer | hloose | hspilt := hbooks.place hin
        · obtain ⟨e, he, htext⟩ := List.mem_map.mp happlied
          have hrow := htables e he (found.row crates cast) (by rw [htext, hread found hfound])
          rw [storedHash_row crates cast found] at hrow
          exact .inr (.inr (.inr hrow))
        · exact .inl hbuffer
        · exact .inr (.inl hloose)
        · exact .inr (.inr (.inl hspilt))
    · exact .inr (.inl hdropped)

end Table

section Examples

open Lib.Binary64
open StratumPool.Server (template shareParams)
open StratumPool.BlockRelay (luckyCrates)
open StratumPool.BlockRecord (printOne)
open StratumPool.Yield (emptyDb)

def scanOne (token : Str) : Option ℚ := if token = lit "1.0" then some 1 else none

/-- One block from its submission to its row. -/
def tabledRun : List (Action Unit ℚ) :=
  [.server (.jobs (.newBlock template)), .server (.jobs (.advance 0)), .server (.connect 1 1),
    .server (.submit 0 (shareParams (lit "7"))), .push 0 true, .oracle (.readShares true),
    .oracle (.readBlocks true), .oracle (.trimBlocks true), .oracle (.applyBlocks fun _ => true)]

theorem printed_one : Printed printOne scanOne toRat 1 := by
  have hunit : toRat ((1 : UInt64).toFloat) = 1 := toRat_of_units (n := 1) (by decide +kernel)
  have htext : printOne ((1 : UInt64).toFloat) = ['1', '.', '0'] := rfl
  rw [Printed, hunit]
  refine ⟨by simp [scanOne, printOne], ?_, '.', ?_, rfl, by decide⟩
  · rw [htext]
    simp [isNumberChar]
  · simp [htext]

theorem found_block_tabled : Tabled luckyCrates printOne scanOne toRat emptyDb tabledRun := by
  apply blocks_tabled
  intro a ha
  simp only [tabledRun, List.mem_cons, List.not_mem_nil, or_false] at ha
  obtain rfl | rfl | rfl | rfl | rfl | rfl | rfl | rfl | rfl := ha
  case inr.inr.inl => exact printed_one
  all_goals trivial

end Examples

end StratumPool.BlockTable
