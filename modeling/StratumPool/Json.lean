import StratumPool.Text

namespace StratumPool.Json

open StratumPool.Text

variable {R : Type}

/-- The three forms in which `serde_json` holds a number. -/
inductive Number (R : Type) where
  | posInt (n : Nat)
  | negInt (n : Int)
  | float (x : R)

/-- `serde_json::Value` -/
inductive Value (R : Type) where
  | null
  | bool (b : Bool)
  | number (n : Number R)
  | string (s : Str)
  | array (items : List (Value R))
  | object (fields : List (Str × Value R))

def Number.map {S : Type} (f : R → S) : Number R → Number S
  | .posInt n => .posInt n
  | .negInt n => .negInt n
  | .float x => .float (f x)

namespace Value

mutual

/-- The same value with its floats held in another type. -/
def map {S : Type} (f : R → S) : Value R → Value S
  | .null => .null
  | .bool b => .bool b
  | .number n => .number (n.map f)
  | .string s => .string s
  | .array items => .array (mapItems f items)
  | .object fields => .object (mapFields f fields)

def mapItems {S : Type} (f : R → S) : List (Value R) → List (Value S)
  | [] => []
  | v :: rest => map f v :: mapItems f rest

def mapFields {S : Type} (f : R → S) : List (Str × Value R) → List (Str × Value S)
  | [] => []
  | (k, v) :: rest => (k, map f v) :: mapFields f rest

end

def asStr : Value R → Option Str
  | .string s => some s
  | _ => none

def asF64 [NatCast R] [IntCast R] : Value R → Option R
  | .number (.posInt n) => some n
  | .number (.negInt n) => some n
  | .number (.float x) => some x
  | _ => none

/-- An unsigned number above `i64::MAX` is not an `i64`. -/
def asI64 : Value R → Option Int
  | .number (.posInt n) => if n < 2 ^ 63 then some n else none
  | .number (.negInt n) => some n
  | _ => none

/-- `value[key]` gives `null` where there is no such field. -/
def field (v : Value R) (key : Str) : Value R :=
  match v with
  | .object fields => (fields.lookup key).getD .null
  | _ => .null

end Value

def escapeChar (c : Char) : Str :=
  if c = '"' then ['\\', '"']
  else if c = '\\' then ['\\', '\\']
  else if c.toNat = 8 then ['\\', 'b']
  else if c.toNat = 9 then ['\\', 't']
  else if c.toNat = 10 then ['\\', 'n']
  else if c.toNat = 12 then ['\\', 'f']
  else if c.toNat = 13 then ['\\', 'r']
  else if c.toNat < 32 then ['\\', 'u'] ++ Lib.HexText.padded 4 c.toNat
  else [c]

def quote (s : Str) : Str := ['"'] ++ s.flatMap escapeChar ++ ['"']

def decimal (n : Int) : Str := lit (toString n)

mutual

/-- `Value::to_string`; the text of a float is the printer's own. -/
def render (float : R → Str) : Value R → Str
  | .null => lit "null"
  | .bool b => if b then lit "true" else lit "false"
  | .number (.posInt n) => decimal n
  | .number (.negInt n) => decimal n
  | .number (.float x) => float x
  | .string s => quote s
  | .array items => ['['] ++ renderItems float items ++ [']']
  | .object fields => ['\x7b'] ++ renderFields float fields ++ ['\x7d']

def renderItems (float : R → Str) : List (Value R) → Str
  | [] => []
  | [v] => render float v
  | v :: w :: rest => render float v ++ [','] ++ renderItems float (w :: rest)

def renderFields (float : R → Str) : List (Str × Value R) → Str
  | [] => []
  | [(k, v)] => quote k ++ [':'] ++ render float v
  | (k, v) :: f :: rest => quote k ++ [':'] ++ render float v ++ [','] ++ renderFields float (f :: rest)

end

end StratumPool.Json
