import BattleTree.Serial.Value

/-!
This module contains the reader of JSON texts. Numbers without a fraction or an exponent are
integers if 64 bits are enough for them, and all others are rounded to double and then to single
precision.
-/

namespace BattleTree.Json

abbrev Parsed (α : Type) := α × List Char

def isSpace (c : Char) : Bool :=
  c = ' ' || c = '\t' || c = '\n' || c = '\r'

def skip (cs : List Char) : List Char :=
  cs.dropWhile isSpace

def digitsValue (digits : List Char) : Nat :=
  digits.foldl (fun n c => 10 * n + (c.toNat - '0'.toNat)) 0

def digits? (cs : List Char) : Option (Parsed (List Char)) :=
  let digits := cs.takeWhile Char.isDigit
  if digits.isEmpty then none else some (digits, cs.dropWhile Char.isDigit)

def whole? : List Char → Option (Parsed (List Char))
  | '0' :: cs => some (['0'], cs)
  | cs => digits? cs

def fraction? : List Char → Option (Parsed (List Char))
  | '.' :: cs => digits? cs
  | cs => some ([], cs)

def exponent? : List Char → Option (Parsed (Option Int))
  | c :: cs =>
    if c = 'e' || c = 'E' then
      match cs with
      | '-' :: cs => (digits? cs).map fun (digits, cs) => (some (-(digitsValue digits : Int)), cs)
      | '+' :: cs => (digits? cs).map fun (digits, cs) => (some (digitsValue digits : Int), cs)
      | cs => (digits? cs).map fun (digits, cs) => (some (digitsValue digits : Int), cs)
    else some (none, c :: cs)
  | [] => some (none, [])

def realOf (negative : Bool) (significand : Nat) (exponent : Int) : Value :=
  let magnitude := (Float.ofScientific significand (exponent < 0) exponent.natAbs).toFloat32
  .real (if negative then -magnitude else magnitude)

def integerOf (negative : Bool) (n : Nat) : Value :=
  if negative then
    if 0 < n ∧ n ≤ Nat.pow 2 63 then .int (-(n : Int)) else realOf true n 0
  else if n < UInt64.size then .int n
  else realOf false n 0

def unsigned? (negative : Bool) (cs : List Char) : Option (Parsed Value) := do
  let (whole, cs) ← whole? cs
  let (fraction, cs) ← fraction? cs
  let (exponent, cs) ← exponent? cs
  if fraction.isEmpty && exponent.isNone then
    return (integerOf negative (digitsValue whole), cs)
  else
    let places : Int := exponent.getD 0 - fraction.length
    return (realOf negative (digitsValue (whole ++ fraction)) places, cs)

def number? : List Char → Option (Parsed Value)
  | '-' :: cs => unsigned? true cs
  | cs => unsigned? false cs

def escapes : List (Char × Char) :=
  [('"', '"'), ('\\', '\\'), ('/', '/'), ('b', '\x08'), ('f', '\x0c'), ('n', '\n'), ('r', '\r'),
   ('t', '\t')]

def hexDigit? (c : Char) : Option Nat :=
  if c.isDigit then some (c.toNat - '0'.toNat)
  else if 'a' ≤ c ∧ c ≤ 'f' then some (c.toNat - 'a'.toNat + 10)
  else if 'A' ≤ c ∧ c ≤ 'F' then some (c.toNat - 'A'.toNat + 10)
  else none

def codeUnit? (digits : List Char) : Option Nat := do
  return (← digits.mapM hexDigit?).foldl (fun n digit => 16 * n + digit) 0

def stringFrom : (half : Option Nat) → (text : List Char) → List Char → Option (Parsed String)
  | none, text, '"' :: cs => some (String.ofList text.reverse, cs)
  | half, text, '\\' :: 'u' :: a :: b :: c :: d :: cs => do
    let n ← codeUnit? [a, b, c, d]
    match half with
    | none =>
      if 0xd800 ≤ n ∧ n < 0xdc00 then stringFrom (some n) text cs
      else if 0xdc00 ≤ n ∧ n < 0xe000 then none
      else stringFrom none (Char.ofNat n :: text) cs
    | some high =>
      if 0xdc00 ≤ n ∧ n < 0xe000 then
        let code := 0x10000 + (high - 0xd800) * 0x400 + (n - 0xdc00)
        stringFrom none (Char.ofNat code :: text) cs
      else none
  | none, text, '\\' :: c :: cs => do stringFrom none ((← escapes.lookup c) :: text) cs
  | none, text, c :: cs => if c < ' ' then none else stringFrom none (c :: text) cs
  | _, _, _ => none

def addField (name : String) (v : Value) (fields : Value.Fields) : Value.Fields :=
  if fields.any fun field => field.1 = name then fields else (name, v) :: fields

def word? (word : String) (cs : List Char) : Option (List Char) :=
  if word.toList.isPrefixOf cs then some (cs.drop word.length) else none

mutual

def value? : (fuel : Nat) → List Char → Option (Parsed Value)
  | 0, _ => none
  | fuel + 1, cs =>
    match skip cs with
    | '"' :: cs => do
      let (text, cs) ← stringFrom none [] cs
      return (.text text, cs)
    | '[' :: cs =>
      match skip cs with
      | ']' :: cs => some (.list [], cs)
      | cs => do
        let (values, cs) ← items? fuel cs
        return (.list values, cs)
    | '\x7b' :: cs =>
      match skip cs with
      | '\x7d' :: cs => some (.record [], cs)
      | cs => do
        let (fields, cs) ← fields? fuel cs
        return (.record fields, cs)
    | 't' :: cs => (word? "rue" cs).map fun cs => (.bool true, cs)
    | 'f' :: cs => (word? "alse" cs).map fun cs => (.bool false, cs)
    | 'n' :: cs => (word? "ull" cs).map fun cs => (.null, cs)
    | cs => number? cs

def items? : (fuel : Nat) → List Char → Option (Parsed (List Value))
  | 0, _ => none
  | fuel + 1, cs => do
    let (v, cs) ← value? fuel cs
    match skip cs with
    | ',' :: cs => do
      let (values, cs) ← items? fuel cs
      return (v :: values, cs)
    | ']' :: cs => some ([v], cs)
    | _ => none

def fields? : (fuel : Nat) → List Char → Option (Parsed Value.Fields)
  | 0, _ => none
  | fuel + 1, cs =>
    match skip cs with
    | '"' :: cs => do
      let (name, cs) ← stringFrom none [] cs
      match skip cs with
      | ':' :: cs => do
        let (v, cs) ← value? fuel cs
        match skip cs with
        | ',' :: cs => do
          let (fields, cs) ← fields? fuel cs
          return (addField name v fields, cs)
        | '\x7d' :: cs => some ([(name, v)], cs)
        | _ => none
      | _ => none
    | _ => none

end

def read? (text : String) : Option Value := do
  let cs := text.toList
  let (v, rest) ← value? (cs.length + 1) cs
  guard (skip rest).isEmpty
  return v

end BattleTree.Json
