import Mathlib.Algebra.Group.Defs
import Mathlib.Data.Finset.Basic

namespace Lib.KeyStore

variable {K C M R : Type}

/-- What a key of a Redis database has. A string that is a number is kept as
that number. -/
inductive Entry (M R : Type) where
  | text (t : M)
  | number (x : R)
  | set (members : Finset M)
  | list (items : List M)
  | hash (fields : M → Option R)

inductive Op (M R : Type) where
  | set (value : M)
  | setNumber (value : R)
  | setNew (value : M)
  | incrByFloat (increment : R)
  | sadd (member : M)
  | srem (member : M)
  | rpush (item : M)
  | ltrim (start : Nat)
  | hincrByFloat (field : M) (increment : R)
  | del

def ofSet [DecidableEq M] (members : Finset M) : Option (Entry M R) :=
  if members = ∅ then none else some (.set members)

def ofList (items : List M) : Option (Entry M R) :=
  if items.isEmpty then none else some (.list items)

/-- What an operation makes of a key; `none` is the reply of a wrong type, or of a
text that is no number. A set or a list that gets empty is no key any more. -/
def Op.apply [DecidableEq M] [Add R] : Op M R → Option (Entry M R) → Option (Option (Entry M R))
  | .set value, _ => some (some (.text value))
  | .setNumber value, _ => some (some (.number value))
  | .setNew value, none => some (some (.text value))
  | .setNew _, some old => some (some old)
  | .incrByFloat increment, none => some (some (.number increment))
  | .incrByFloat increment, some (.number x) => some (some (.number (x + increment)))
  | .sadd member, none => some (ofSet {member})
  | .sadd member, some (.set members) => some (ofSet (insert member members))
  | .srem _, none => some none
  | .srem member, some (.set members) => some (ofSet (members.erase member))
  | .rpush item, none => some (ofList [item])
  | .rpush item, some (.list items) => some (ofList (items ++ [item]))
  | .ltrim _, none => some none
  | .ltrim start, some (.list items) => some (ofList (items.drop start))
  | .hincrByFloat field increment, none =>
      some (some (.hash (Function.update (fun _ => none) field (some increment))))
  | .hincrByFloat field increment, some (.hash fields) =>
      let sum := match fields field with
        | none => increment
        | some x => x + increment
      some (some (.hash (Function.update fields field (some sum))))
  | .del, _ => some none
  | _, _ => none

/-- A database, and how many operations it has refused. -/
structure Store (K M R : Type) where
  entries : K → Option (Entry M R)
  refused : Nat

def empty : Store K M R := ⟨fun _ => none, 0⟩

variable [DecidableEq K] [DecidableEq M] [Add R]

def exec (store : Store K M R) (key : K) (op : Op M R) : Store K M R :=
  match op.apply (store.entries key) with
  | none => { store with refused := store.refused + 1 }
  | some entry => { store with entries := Function.update store.entries key entry }

/-- The database has every cell under the cell's own key. -/
def Holds (name : C → K) (content : C → Option (Entry M R)) (store : Store K M R) : Prop :=
  ∀ c, store.entries (name c) = content c

variable {name : C → K} {content : C → Option (Entry M R)} {store : Store K M R}

/-- An operation on a cell is done on its key, and no other cell sees it. -/
theorem Holds.exec [DecidableEq C] (hinj : Function.Injective name)
    (h : Holds name content store) {c : C} {op : Op M R} {entry : Option (Entry M R)}
    (happly : op.apply (content c) = some entry) :
    Holds name (Function.update content c entry) (exec store (name c) op) ∧
      (KeyStore.exec store (name c) op).refused = store.refused := by
  have hafter : KeyStore.exec store (name c) op =
      { store with entries := Function.update store.entries (name c) entry } := by
    rw [KeyStore.exec, h c, happly]
  rw [hafter]
  refine ⟨?_, rfl⟩
  intro d
  by_cases hd : d = c
  · rw [hd]
    simp only [Function.update_self]
  · simp only [Function.update_of_ne hd, Function.update_of_ne (hinj.ne hd)]
    exact h d

end Lib.KeyStore
