import StratumPool.Json
import Mathlib.Data.List.Basic

namespace StratumPool.Json

open StratumPool.Text

variable {R : Type}

section Reading

def unescape (c : Char) : Option Char :=
  if c = '"' ∨ c = '\\' ∨ c = '/' then some c
  else if c = 'b' then some (Char.ofNat 8)
  else if c = 't' then some (Char.ofNat 9)
  else if c = 'n' then some (Char.ofNat 10)
  else if c = 'f' then some (Char.ofNat 12)
  else if c = 'r' then some (Char.ofNat 13)
  else none

/-- The rest of a string after its opening quote, and what follows it. A control
character has to be escaped. -/
def readString : Str → Option (Str × Str)
  | [] => none
  | c :: s =>
      if c = '"' then some ([], s)
      else if c = '\\' then
        match s with
        | [] => none
        | e :: s =>
            if e = 'u' then
              match s with
              | d₁ :: d₂ :: d₃ :: d₄ :: s =>
                  (readString s).map fun r =>
                    (Char.ofNat (Lib.HexText.value [d₁, d₂, d₃, d₄]) :: r.1, r.2)
              | _ => none
            else (unescape e).bind fun d => (readString s).map fun r => (d :: r.1, r.2)
      else if c.toNat < 32 then none
      else (readString s).map fun r => (c :: r.1, r.2)

def isNumberChar (c : Char) : Bool :=
  c.isDigit || c == '-' || c == '+' || c == '.' || c == 'e' || c == 'E'

def isDigits (ds : Str) : Bool := !ds.isEmpty && ds.all Char.isDigit

def readInteger (token : Str) : Option (Number R) :=
  match token with
  | [] => none
  | c :: ds =>
      if c = '-' then
        if isDigits ds then some (.negInt (-(Nat.ofDigitChars 10 ds 0 : Nat))) else none
      else if isDigits (c :: ds) then some (.posInt (Nat.ofDigitChars 10 (c :: ds) 0))
      else none

/-- `scan` reads the numbers that are no integers. -/
def readNumber (scan : Str → Option R) (token : Str) : Option (Number R) :=
  readInteger token <|> (scan token).map .float

def readWord (s : Str) : Option (Value R × Str) :=
  if (lit "null").isPrefixOf s then some (.null, s.drop 4)
  else if (lit "true").isPrefixOf s then some (.bool true, s.drop 4)
  else if (lit "false").isPrefixOf s then some (.bool false, s.drop 5)
  else none

mutual

/-- The value that a text begins with, and the rest of the text. -/
def readValue (scan : Str → Option R) : Nat → Str → Option (Value R × Str)
  | 0, _ => none
  | _ + 1, [] => none
  | n + 1, c :: s =>
      if c = '"' then (readString s).map fun r => (.string r.1, r.2)
      else if c = '[' then
        if s.head? = some ']' then some (.array [], s.tail)
        else (readItems scan n s).map fun r => (.array r.1, r.2)
      else if c = '\x7b' then
        if s.head? = some '\x7d' then some (.object [], s.tail)
        else (readFields scan n s).map fun r => (.object r.1, r.2)
      else if isNumberChar c then
        (readNumber scan ((c :: s).takeWhile isNumberChar)).map fun m =>
          (.number m, (c :: s).dropWhile isNumberChar)
      else readWord (c :: s)

def readItems (scan : Str → Option R) : Nat → Str → Option (List (Value R) × Str)
  | 0, _ => none
  | n + 1, s =>
      (readValue scan n s).bind fun r =>
        match r.2 with
        | [] => none
        | c :: rest =>
            if c = ',' then (readItems scan n rest).map fun q => (r.1 :: q.1, q.2)
            else if c = ']' then some ([r.1], rest)
            else none

def readFields (scan : Str → Option R) : Nat → Str → Option (List (Str × Value R) × Str)
  | 0, _ => none
  | n + 1, s =>
      if s.head? = some '"' then
        (readString s.tail).bind fun k =>
          if k.2.head? = some ':' then
            (readValue scan n k.2.tail).bind fun r =>
              match r.2 with
              | [] => none
              | c :: rest =>
                  if c = ',' then (readFields scan n rest).map fun q => ((k.1, r.1) :: q.1, q.2)
                  else if c = '\x7d' then some ([(k.1, r.1)], rest)
                  else none
          else none
      else none

end

/-- A text that is one value. This reads the compact texts that `to_string` writes,
as `serde_json::from_str` does; white space between the parts of a text and
surrogate pairs among its escapes, which `from_str` takes too, are not read. -/
def readText (scan : Str → Option R) (s : Str) : Option (Value R) :=
  match readValue scan s.length s with
  | some (v, []) => some v
  | _ => none

end Reading

section Strings

theorem readString_quote (s : Str) : readString ('"' :: s) = some ([], s) := by
  rw [readString.eq_def]
  simp only [if_true]

theorem readString_plain {c : Char} (hquote : c ≠ '"') (hslash : c ≠ '\\') (hctrl : ¬ c.toNat < 32)
    (s : Str) : readString (c :: s) = (readString s).map fun r => (c :: r.1, r.2) := by
  rw [readString.eq_def]
  simp only [if_neg hquote, if_neg hslash, if_neg hctrl]

theorem readString_short {e d : Char} (hu : e ≠ 'u') (hd : unescape e = some d) (s : Str) :
    readString ('\\' :: e :: s) = (readString s).map fun r => (d :: r.1, r.2) := by
  have hslash : ¬ '\\' = '"' := by decide
  rw [readString.eq_def]
  simp only [if_neg hslash, if_true, if_neg hu, hd, Option.bind_some]

theorem readString_hex (d₁ d₂ d₃ d₄ : Char) (s : Str) :
    readString ('\\' :: 'u' :: d₁ :: d₂ :: d₃ :: d₄ :: s) = (readString s).map fun r =>
      (Char.ofNat (Lib.HexText.value [d₁, d₂, d₃, d₄]) :: r.1, r.2) := by
  have hslash : ¬ '\\' = '"' := by decide
  rw [readString.eq_def]
  simp only [if_neg hslash, if_true]

/-- A character is read back from its escaped form. -/
theorem readString_escape (c : Char) (s : Str) :
    readString (escapeChar c ++ s) = (readString s).map fun r => (c :: r.1, r.2) := by
  have hcode : ∀ {n : Nat}, c.toNat = n → Char.ofNat n = c := by
    rintro n rfl
    exact Char.ofNat_toNat c
  rw [escapeChar]
  split_ifs with hquote hslash h8 h9 h10 h12 h13 hctrl
  · rw [hquote]
    exact readString_short (by decide) (by decide) s
  · rw [hslash]
    exact readString_short (by decide) (by decide) s
  · rw [← hcode h8]
    exact readString_short (by decide) (by decide) s
  · rw [← hcode h9]
    exact readString_short (by decide) (by decide) s
  · rw [← hcode h10]
    exact readString_short (by decide) (by decide) s
  · rw [← hcode h12]
    exact readString_short (by decide) (by decide) s
  · rw [← hcode h13]
    exact readString_short (by decide) (by decide) s
  · have hlen : (Lib.HexText.padded 4 c.toNat).length = 4 :=
      Lib.HexText.length_padded (by decide) (by omega)
    have hvalue := Lib.HexText.value_padded 4 c.toNat
    obtain ⟨d₁, d₂, d₃, d₄, hdigits⟩ : ∃ d₁ d₂ d₃ d₄, Lib.HexText.padded 4 c.toNat =
        [d₁, d₂, d₃, d₄] := by
      match Lib.HexText.padded 4 c.toNat, hlen with
      | [d₁, d₂, d₃, d₄], _ => exact ⟨d₁, d₂, d₃, d₄, rfl⟩
    rw [hdigits] at hvalue ⊢
    have hread := readString_hex d₁ d₂ d₃ d₄ s
    rw [hvalue, hcode rfl] at hread
    exact hread
  · exact readString_plain hquote hslash hctrl s

theorem readString_flatMap (t s : Str) :
    readString (t.flatMap escapeChar ++ '"' :: s) = some (t, s) := by
  induction t with
  | nil => exact readString_quote s
  | cons c t ih =>
    rw [List.flatMap_cons, List.append_assoc, readString_escape, ih]
    rfl

end Strings

section Numbers

variable (float : R → Str) (scan : Str → Option R)

/-- The printer writes the number with a point or an exponent, and the scanner
reads it. -/
structure Prints (x : R) : Prop where
  scanned : scan (float x) = some x
  chars : ∀ c ∈ float x, isNumberChar c = true
  marked : ∃ c ∈ float x, c.isDigit = false ∧ c ≠ '-'

/-- No number goes on here. -/
def Delimited (rest : Str) : Prop := ∀ c ∈ rest.head?, isNumberChar c = false

def Number.Readable : Number R → Prop
  | .posInt _ => True
  | .negInt n => n < 0
  | .float x => Prints float scan x

def renderNumber : Number R → Str
  | .posInt n => decimal n
  | .negInt n => decimal n
  | .float x => float x

theorem render_number (m : Number R) : render float (.number m) = renderNumber float m := by
  cases m <;> rfl

theorem decimal_ofNat (n : Nat) : decimal n = Nat.toDigits 10 n := Nat.toList_repr

theorem decimal_neg {n : Int} (h : n < 0) : decimal n = '-' :: Nat.toDigits 10 n.natAbs := by
  obtain ⟨k, rfl⟩ := Int.eq_negSucc_of_lt_zero h
  have hrepr : toString (Int.negSucc k) = "-" ++ (k + 1).repr := rfl
  rw [decimal, lit, hrepr, String.toList_append, Nat.toList_repr]
  rfl

theorem isDigit_toDigits (n : Nat) : ∀ c ∈ Nat.toDigits 10 n, c.isDigit = true :=
  fun _ hc => Nat.isDigit_of_mem_toDigits (by decide) (by decide) hc

theorem isDigits_iff {ds : Str} : isDigits ds = true ↔ ds ≠ [] ∧ ∀ c ∈ ds, c.isDigit = true := by
  simp [isDigits]

theorem readInteger_posInt (n : Nat) :
    readInteger (Nat.toDigits 10 n) = some (.posInt n : Number R) := by
  have hdigits := isDigit_toDigits n
  have hvalue : Nat.ofDigitChars 10 (Nat.toDigits 10 n) 0 = n := Nat.ofDigitChars_ten_toDigits
  cases hds : Nat.toDigits 10 n with
  | nil => exact absurd hds Nat.toDigits_ne_nil
  | cons c ds =>
    rw [hds] at hdigits hvalue
    have hc : c ≠ '-' := by
      rintro rfl
      exact absurd (hdigits '-' List.mem_cons_self) (by decide)
    have hall : isDigits (c :: ds) = true := isDigits_iff.mpr ⟨List.cons_ne_nil c ds, hdigits⟩
    rw [readInteger]
    simp only [if_neg hc, if_pos hall, hvalue]

theorem readInteger_negInt {n : Int} (h : n < 0) :
    readInteger ('-' :: Nat.toDigits 10 n.natAbs) = some (.negInt n : Number R) := by
  have hall : isDigits (Nat.toDigits 10 n.natAbs) = true :=
    isDigits_iff.mpr ⟨Nat.toDigits_ne_nil, isDigit_toDigits _⟩
  have hvalue : Nat.ofDigitChars 10 (Nat.toDigits 10 n.natAbs) 0 = n.natAbs :=
    Nat.ofDigitChars_ten_toDigits
  have hneg : -((n.natAbs : Nat) : Int) = n := by omega
  rw [readInteger]
  simp only [if_true, if_pos hall, hvalue, hneg]

/-- A point or an exponent makes a token no integer. -/
theorem readInteger_marked {token : Str} (h : ∃ c ∈ token, c.isDigit = false ∧ c ≠ '-') :
    readInteger token = (none : Option (Number R)) := by
  obtain ⟨m, hm, hdigit, hminus⟩ := h
  have hnot : ∀ {ds : Str}, m ∈ ds → ¬ isDigits ds = true := by
    intro ds hmem hall
    rw [(isDigits_iff.mp hall).2 m hmem] at hdigit
    cases hdigit
  cases token with
  | nil => rfl
  | cons c ds =>
    rw [readInteger]
    by_cases hc : c = '-'
    · obtain rfl | hmem := List.mem_cons.mp hm
      · exact absurd hc hminus
      · rw [if_pos hc, if_neg (hnot hmem)]
    · rw [if_neg hc, if_neg (hnot hm)]

variable {float scan}

theorem isNumberChar_digit {c : Char} (h : c.isDigit = true) : isNumberChar c = true := by
  simp [isNumberChar, h]

/-- A number that is written can be read, and it is all number characters. -/
theorem readNumber_render {m : Number R} (h : m.Readable float scan) :
    readNumber scan (renderNumber float m) = some m ∧ renderNumber float m ≠ [] ∧
      ∀ c ∈ renderNumber float m, isNumberChar c = true := by
  cases m with
  | posInt n =>
    rw [renderNumber, decimal_ofNat, readNumber, readInteger_posInt]
    exact ⟨rfl, Nat.toDigits_ne_nil, fun c hc => isNumberChar_digit (isDigit_toDigits n c hc)⟩
  | negInt n =>
    rw [renderNumber, decimal_neg h, readNumber, readInteger_negInt h]
    refine ⟨rfl, List.cons_ne_nil _ _, ?_⟩
    intro c hc
    obtain rfl | hc := List.mem_cons.mp hc
    · rfl
    · exact isNumberChar_digit (isDigit_toDigits _ c hc)
  | float x =>
    rw [renderNumber, readNumber, readInteger_marked h.marked, h.scanned]
    obtain ⟨c, hc, -⟩ := h.marked
    exact ⟨rfl, List.ne_nil_of_mem hc, h.chars⟩

end Numbers

section Values

variable (float : R → Str) (scan : Str → Option R)

mutual

/-- Every number of the value can be read back. -/
def Readable : Value R → Prop
  | .null | .bool _ | .string _ => True
  | .number m => m.Readable float scan
  | .array items => ReadableItems items
  | .object fields => ReadableFields fields

def ReadableItems : List (Value R) → Prop
  | [] => True
  | v :: rest => Readable v ∧ ReadableItems rest

def ReadableFields : List (Str × Value R) → Prop
  | [] => True
  | (_, v) :: rest => Readable v ∧ ReadableFields rest

end

variable {float scan}

theorem span_token {token rest : Str} (htoken : ∀ c ∈ token, isNumberChar c = true)
    (hrest : Delimited rest) :
    (token ++ rest).takeWhile isNumberChar = token ∧
      (token ++ rest).dropWhile isNumberChar = rest := by
  rw [List.takeWhile_append_of_pos htoken, List.dropWhile_append_of_pos htoken]
  cases rest with
  | nil => simp
  | cons c rest =>
    have hc : isNumberChar c = false := hrest c rfl
    simp [hc]

theorem readValue_number {m : Number R} (h : m.Readable float scan) (n : Nat) {rest : Str}
    (hrest : Delimited rest) :
    readValue scan (n + 1) (renderNumber float m ++ rest) = some (.number m, rest) := by
  obtain ⟨hread, hne, hchars⟩ := readNumber_render h
  obtain ⟨htake, hdrop⟩ := span_token hchars hrest
  cases htoken : renderNumber float m with
  | nil => exact absurd htoken hne
  | cons c token =>
    rw [htoken] at hread hchars htake hdrop
    have hc := hchars c List.mem_cons_self
    have hother : ∀ {d : Char}, isNumberChar d = false → c ≠ d := by
      rintro d hd rfl
      rw [hc] at hd
      cases hd
    have hquote : c ≠ '"' := hother (by decide)
    have harray : c ≠ '[' := hother (by decide)
    have hobject : c ≠ '\x7b' := hother (by decide)
    rw [List.cons_append] at htake hdrop ⊢
    rw [readValue, if_neg hquote, if_neg harray, if_neg hobject, if_pos hc, htake, hdrop, hread]
    rfl

theorem readValue_string (t : Str) (n : Nat) (rest : Str) :
    readValue scan (n + 1) (quote t ++ rest) = some (.string t, rest) := by
  have htext : quote t ++ rest = '"' :: (t.flatMap escapeChar ++ '"' :: rest) := by simp [quote]
  rw [htext, readValue, if_pos rfl, readString_flatMap]
  rfl

theorem readValue_word {c : Char} {s : Str} (hquote : c ≠ '"') (harray : c ≠ '[')
    (hobject : c ≠ '\x7b') (hnumber : isNumberChar c = false) (n : Nat) :
    readValue scan (n + 1) (c :: s) = readWord (c :: s) := by
  rw [readValue, if_neg hquote, if_neg harray, if_neg hobject, if_neg (by simp [hnumber])]

theorem readValue_array {s : Str} {items : List (Value R)} {rest : Str} {n : Nat}
    (hs : s.head? ≠ some ']') (h : readItems scan n s = some (items, rest)) :
    readValue scan (n + 1) ('[' :: s) = some (.array items, rest) := by
  have hquote : ¬ '[' = '"' := by decide
  rw [readValue, if_neg hquote, if_pos rfl, if_neg hs, h]
  rfl

theorem readValue_object {s : Str} {fields : List (Str × Value R)} {rest : Str} {n : Nat}
    (hs : s.head? ≠ some '\x7d') (h : readFields scan n s = some (fields, rest)) :
    readValue scan (n + 1) ('\x7b' :: s) = some (.object fields, rest) := by
  have hquote : ¬ '\x7b' = '"' := by decide
  have harray : ¬ '\x7b' = '[' := by decide
  rw [readValue, if_neg hquote, if_neg harray, if_pos rfl, if_neg hs, h]
  rfl

theorem readItems_last {s rest : Str} {v : Value R} {n : Nat}
    (h : readValue scan n s = some (v, ']' :: rest)) :
    readItems scan (n + 1) s = some ([v], rest) := by
  have hcomma : ¬ ']' = ',' := by decide
  rw [readItems, h, Option.bind_some]
  simp only [if_neg hcomma, if_true]

theorem readItems_more {s s' rest : Str} {v : Value R} {items : List (Value R)} {n : Nat}
    (h : readValue scan n s = some (v, ',' :: s'))
    (hitems : readItems scan n s' = some (items, rest)) :
    readItems scan (n + 1) s = some (v :: items, rest) := by
  rw [readItems, h, Option.bind_some]
  simp only [if_true, hitems, Option.map_some]

theorem readFields_key {k s : Str} (n : Nat) :
    readFields scan (n + 1) (quote k ++ ':' :: s) = (readValue scan n s).bind fun r =>
      match r.2 with
      | [] => none
      | c :: rest =>
          if c = ',' then (readFields scan n rest).map fun q => ((k, r.1) :: q.1, q.2)
          else if c = '\x7d' then some ([(k, r.1)], rest)
          else none := by
  have htext : quote k ++ ':' :: s = '"' :: (k.flatMap escapeChar ++ '"' :: ':' :: s) := by
    simp [quote]
  rw [htext, readFields, if_pos List.head?_cons, List.tail_cons, readString_flatMap,
    Option.bind_some, if_pos List.head?_cons]
  rfl

theorem readFields_last {k s rest : Str} {v : Value R} {n : Nat}
    (h : readValue scan n s = some (v, '\x7d' :: rest)) :
    readFields scan (n + 1) (quote k ++ ':' :: s) = some ([(k, v)], rest) := by
  have hcomma : ¬ '\x7d' = ',' := by decide
  rw [readFields_key, h, Option.bind_some]
  simp only [if_neg hcomma, if_true]

theorem readFields_more {k s s' rest : Str} {v : Value R} {fields : List (Str × Value R)} {n : Nat}
    (h : readValue scan n s = some (v, ',' :: s'))
    (hfields : readFields scan n s' = some (fields, rest)) :
    readFields scan (n + 1) (quote k ++ ':' :: s) = some ((k, v) :: fields, rest) := by
  rw [readFields_key, h, Option.bind_some]
  simp only [if_true, hfields, Option.map_some]

/-- No value begins as an array ends. -/
theorem render_head {v : Value R} (h : Readable float scan v) (rest : Str) :
    render float v ≠ [] ∧ (render float v ++ rest).head? ≠ some ']' := by
  have hhead : ∃ c s, render float v = c :: s ∧ c ≠ ']' := by
    cases v with
    | null => exact ⟨_, _, rfl, by decide⟩
    | bool b => cases b <;> exact ⟨_, _, rfl, by decide⟩
    | string t => exact ⟨_, _, rfl, by decide⟩
    | array items => exact ⟨_, _, rfl, by decide⟩
    | object fields => exact ⟨_, _, rfl, by decide⟩
    | number m =>
      obtain ⟨-, hne, hchars⟩ := readNumber_render h
      rw [render_number]
      obtain ⟨c, s, hcs⟩ := List.exists_cons_of_ne_nil hne
      refine ⟨c, s, hcs, ?_⟩
      rintro rfl
      exact absurd (hchars ']' (by rw [hcs]; exact List.mem_cons_self)) (by decide)
  obtain ⟨c, s, hcs, hc⟩ := hhead
  rw [hcs]
  exact ⟨List.cons_ne_nil c s, fun he => hc (Option.some.inj he)⟩

theorem delimited_cons {c : Char} (hc : isNumberChar c = false) (rest : Str) :
    Delimited (c :: rest) := by
  intro d hd
  cases hd
  exact hc

theorem le_of_render {v : Value R} (h : Readable float scan v) {n : Nat}
    (hn : (render float v).length ≤ n) : ∃ m, n = m + 1 := by
  have hpos := List.length_pos_of_ne_nil (render_head h []).1
  exact Nat.exists_eq_add_of_le' (hpos.trans_le hn)

mutual

/-- What is written is read back, and nothing of what follows it. -/
theorem readValue_render : ∀ (v : Value R), Readable float scan v → ∀ (n : Nat),
    (render float v).length ≤ n + 1 → ∀ {rest : Str}, Delimited rest →
      readValue scan (n + 1) (render float v ++ rest) = some (v, rest)
  | .null, _, n, _, rest, _ => by
    have hword : readWord (R := R) (lit "null" ++ rest) = some (.null, rest) := by
      simp [readWord, lit]
    rw [← hword]
    exact readValue_word (by decide) (by decide) (by decide) (by decide) n
  | .bool true, _, n, _, rest, _ => by
    have hword : readWord (R := R) (lit "true" ++ rest) = some (.bool true, rest) := by
      simp [readWord, lit]
    rw [← hword]
    exact readValue_word (by decide) (by decide) (by decide) (by decide) n
  | .bool false, _, n, _, rest, _ => by
    have hword : readWord (R := R) (lit "false" ++ rest) = some (.bool false, rest) := by
      simp [readWord, lit]
    rw [← hword]
    exact readValue_word (by decide) (by decide) (by decide) (by decide) n
  | .string t, _, n, _, rest, _ => readValue_string t n rest
  | .number m, h, n, _, rest, hrest => by
    rw [render_number]
    exact readValue_number h n hrest
  | .array [], _, n, _, rest, _ => by
    have hquote : ¬ '[' = '"' := by decide
    have htext : render float (.array []) ++ rest = '[' :: ']' :: rest := rfl
    rw [htext, readValue, if_neg hquote, if_pos rfl, if_pos List.head?_cons, List.tail_cons]
  | .array (v :: items), h, n, hn, rest, _ => by
    have htext : render float (.array (v :: items)) ++ rest =
        '[' :: (renderItems float (v :: items) ++ ']' :: rest) := by
      simp [render]
    have hlen : (renderItems float (v :: items)).length + 2 ≤ n + 1 := by
      simpa [render] using hn
    have hhead : (renderItems float (v :: items) ++ ']' :: rest).head? ≠ some ']' := by
      cases items with
      | nil => exact (render_head h.1 _).2
      | cons w items =>
        simp only [renderItems, List.append_assoc]
        exact (render_head h.1 _).2
    obtain ⟨n, rfl⟩ : ∃ m, n = m + 1 := Nat.exists_eq_add_of_le' (by omega)
    rw [htext]
    refine readValue_array hhead ?_
    exact readItems_render (v :: items) (List.cons_ne_nil _ _) h n (by omega) rest
  | .object [], _, n, _, rest, _ => by
    have hquote : ¬ '\x7b' = '"' := by decide
    have harray : ¬ '\x7b' = '[' := by decide
    have htext : render float (.object []) ++ rest = '\x7b' :: '\x7d' :: rest := rfl
    rw [htext, readValue, if_neg hquote, if_neg harray, if_pos rfl, if_pos List.head?_cons,
      List.tail_cons]
  | .object (f :: fields), h, n, hn, rest, _ => by
    have htext : render float (.object (f :: fields)) ++ rest =
        '\x7b' :: (renderFields float (f :: fields) ++ '\x7d' :: rest) := by
      simp [render]
    have hlen : (renderFields float (f :: fields)).length + 2 ≤ n + 1 := by
      simpa [render] using hn
    have hhead : (renderFields float (f :: fields) ++ '\x7d' :: rest).head? ≠ some '\x7d' := by
      have hne : '"' ≠ '\x7d' := by decide
      cases fields <;> simp [renderFields, quote, hne]
    obtain ⟨n, rfl⟩ : ∃ m, n = m + 1 := Nat.exists_eq_add_of_le' (by omega)
    rw [htext]
    refine readValue_object hhead ?_
    exact readFields_render (f :: fields) (List.cons_ne_nil _ _) h n (by omega) rest

theorem readItems_render : ∀ (items : List (Value R)), items ≠ [] → ReadableItems float scan items →
    ∀ (n : Nat), (renderItems float items).length ≤ n → ∀ (rest : Str),
      readItems scan (n + 1) (renderItems float items ++ ']' :: rest) = some (items, rest)
  | [], hne, _, _, _, _ => absurd rfl hne
  | [v], _, h, n, hn, rest => by
    obtain ⟨n, rfl⟩ := le_of_render h.1 hn
    exact readItems_last (readValue_render v h.1 n hn (delimited_cons (by decide) rest))
  | v :: w :: items, _, h, n, hn, rest => by
    have htext : renderItems float (v :: w :: items) ++ ']' :: rest =
        render float v ++ ',' :: (renderItems float (w :: items) ++ ']' :: rest) := by
      simp [renderItems]
    have hlen : (render float v).length + 1 + (renderItems float (w :: items)).length ≤ n := by
      simpa [renderItems, add_assoc, add_comm, add_left_comm] using hn
    have hv : (render float v).length ≤ n := by omega
    obtain ⟨n, rfl⟩ := le_of_render h.1 hv
    rw [htext]
    refine readItems_more (readValue_render v h.1 n (by omega) (delimited_cons (by decide) _)) ?_
    exact readItems_render (w :: items) (List.cons_ne_nil _ _) h.2 n (by omega) rest

theorem readFields_render : ∀ (fields : List (Str × Value R)), fields ≠ [] →
    ReadableFields float scan fields → ∀ (n : Nat), (renderFields float fields).length ≤ n →
      ∀ (rest : Str), readFields scan (n + 1) (renderFields float fields ++ '\x7d' :: rest) =
        some (fields, rest)
  | [], hne, _, _, _, _ => absurd rfl hne
  | [(k, v)], _, h, n, hn, rest => by
    have htext : renderFields float [(k, v)] ++ '\x7d' :: rest =
        quote k ++ ':' :: (render float v ++ '\x7d' :: rest) := by
      simp [renderFields]
    have hlen : (quote k).length + 1 + (render float v).length ≤ n := by
      simpa [renderFields, add_assoc, add_comm, add_left_comm] using hn
    have hv : (render float v).length ≤ n := by omega
    obtain ⟨n, rfl⟩ := le_of_render h.1 hv
    rw [htext]
    exact readFields_last (readValue_render v h.1 n (by omega) (delimited_cons (by decide) rest))
  | (k, v) :: f :: fields, _, h, n, hn, rest => by
    have htext : renderFields float ((k, v) :: f :: fields) ++ '\x7d' :: rest =
        quote k ++ ':' ::
          (render float v ++ ',' :: (renderFields float (f :: fields) ++ '\x7d' :: rest)) := by
      simp [renderFields]
    have hlen : (quote k).length + 1 + (render float v).length + 1 +
        (renderFields float (f :: fields)).length ≤ n := by
      simpa [renderFields, add_assoc, add_comm, add_left_comm] using hn
    have hv : (render float v).length ≤ n := by omega
    obtain ⟨n, rfl⟩ := le_of_render h.1 hv
    rw [htext]
    refine readFields_more (readValue_render v h.1 n (by omega) (delimited_cons (by decide) _)) ?_
    exact readFields_render (f :: fields) (List.cons_ne_nil _ _) h.2 n (by omega) rest

end

/-- A text that `serde_json` prints reads as the value it was printed from. -/
theorem readText_render {v : Value R} (h : Readable float scan v) :
    readText scan (render float v) = some v := by
  obtain ⟨n, hn⟩ := le_of_render h (le_refl (render float v).length)
  have hread : readValue scan (n + 1) (render float v ++ []) = some (v, []) :=
    readValue_render v h n hn.le (by simp [Delimited])
  rw [List.append_nil, ← hn] at hread
  rw [readText, hread]

end Values

section Printable

variable {float : R → Str} {scan : Str → Option R}

/-- No control character, and so no end of line. -/
def Printable (s : Str) : Prop := ∀ c ∈ s, 32 ≤ c.toNat

instance (s : Str) : Decidable (Printable s) := List.decidableBAll (fun c : Char => 32 ≤ c.toNat) s

theorem Printable.append {s t : Str} (hs : Printable s) (ht : Printable t) : Printable (s ++ t) :=
  List.forall_mem_append.mpr ⟨hs, ht⟩

theorem printable_of_isNumberChar {c : Char} (h : isNumberChar c = true) : 32 ≤ c.toNat := by
  simp only [isNumberChar, Bool.or_eq_true, beq_iff_eq, Char.isDigit, Bool.and_eq_true,
    decide_eq_true_eq, ge_iff_le, UInt32.le_iff_toNat_le] at h
  obtain ((((h | rfl) | rfl) | rfl) | rfl) | rfl := h
  · exact le_trans (by decide) h.1
  all_goals decide

theorem printable_escape (c : Char) : Printable (escapeChar c) := by
  rw [escapeChar]
  split_ifs with hquote hslash h8 h9 h10 h12 h13 hctrl
  · decide
  · decide
  · decide
  · decide
  · decide
  · decide
  · decide
  · refine Printable.append (by decide) ?_
    intro d hd
    have hlower := Lib.HexText.padded_lower 4 c.toNat d hd
    simp only [Lib.HexText.isLower, Bool.or_eq_true, Bool.and_eq_true, decide_eq_true_eq,
      Char.le_def, UInt32.le_iff_toNat_le] at hlower
    obtain ⟨hd, -⟩ | ⟨hd, -⟩ := hlower
    · exact le_trans (by decide) hd
    · exact le_trans (by decide) hd
  · intro d hd
    rw [List.mem_singleton.mp hd]
    exact not_lt.mp hctrl

theorem printable_quote (s : Str) : Printable (quote s) := by
  refine Printable.append (Printable.append (by decide) ?_) (by decide)
  intro c hc
  obtain ⟨d, -, hd⟩ := List.mem_flatMap.mp hc
  exact printable_escape d c hd

mutual

theorem printable_render : ∀ (v : Value R), Readable float scan v → Printable (render float v)
  | .null, _ => by
    rw [render]
    decide
  | .bool true, _ => by
    rw [render]
    decide
  | .bool false, _ => by
    rw [render]
    decide
  | .string t, _ => printable_quote t
  | .number m, h => by
    rw [render_number]
    exact fun c hc => printable_of_isNumberChar ((readNumber_render h).2.2 c hc)
  | .array items, h => by
    rw [render]
    exact ((by decide : Printable ['[']).append (printable_items items h)).append (by decide)
  | .object fields, h => by
    rw [render]
    exact ((by decide : Printable ['\x7b']).append (printable_fields fields h)).append (by decide)

theorem printable_items : ∀ (items : List (Value R)), ReadableItems float scan items →
    Printable (renderItems float items)
  | [], _ => by simp [renderItems, Printable]
  | [v], h => printable_render v h.1
  | v :: w :: items, h => by
    rw [renderItems]
    exact ((printable_render v h.1).append (by decide)).append (printable_items (w :: items) h.2)

theorem printable_fields : ∀ (fields : List (Str × Value R)), ReadableFields float scan fields →
    Printable (renderFields float fields)
  | [], _ => by simp [renderFields, Printable]
  | [(k, v)], h => by
    rw [renderFields]
    exact ((printable_quote k).append (by decide)).append (printable_render v h.1)
  | (k, v) :: f :: fields, h => by
    rw [renderFields]
    exact ((((printable_quote k).append (by decide)).append (printable_render v h.1)).append
      (by decide)).append (printable_fields (f :: fields) h.2)

end

end Printable

end StratumPool.Json
