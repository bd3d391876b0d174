import AbleIndex.Json.Basic
import AbleIndex.Source.Word
import AbleIndex.Text.Digit

namespace AbleIndex.Json

open Source Text

def isSpace (c : Char) : Bool := c = ' ' || c = '\n' || c = '\r' || c = '\t'

def skipSpace (cs : List Char) : List Char := cs.dropWhile isSpace

def hexUnit? (a b c d : Char) : Option Nat := do
  return (((← hexValue? a) * 16 + (← hexValue? b)) * 16 + (← hexValue? c)) * 16 + (← hexValue? d)

def escaped? : Char → Option Nat
  | '"' => some 0x22
  | '\\' => some 0x5C
  | '/' => some 0x2F
  | 'b' => some 0x08
  | 'f' => some 0x0C
  | 'n' => some 0x0A
  | 'r' => some 0x0D
  | 't' => some 0x09
  | _ => none

/-- The code units behind the opening quote of a string, those met so far last one first, and what
follows the closing quote. A character that is not escaped is a unit of its own. -/
def readUnits (units : List Nat) : List Char → Option (List Nat × List Char)
  | [] => none
  | '"' :: cs => some (units.reverse, cs)
  | '\\' :: 'u' :: a :: b :: c :: d :: cs =>
    match hexUnit? a b c d with
    | some n => readUnits (n :: units) cs
    | none => none
  | '\\' :: c :: cs =>
    match escaped? c with
    | some n => readUnits (n :: units) cs
    | none => none
  | c :: cs => if c.toNat < 0x20 then none else readUnits (c.toNat :: units) cs

def joinUnits (chars : List Char) : List Nat → Option (List Char)
  | [] => some chars.reverse
  | m :: n :: us =>
    if 0xD800 ≤ m ∧ m ≤ 0xDBFF then
      if 0xDC00 ≤ n ∧ n ≤ 0xDFFF then
        joinUnits (Char.ofNat (0x10000 + (m - 0xD800) * 0x400 + (n - 0xDC00)) :: chars) us
      else none
    else if 0xDC00 ≤ m ∧ m ≤ 0xDFFF then none
    else joinUnits (Char.ofNat m :: chars) (n :: us)
  | [m] => if 0xD800 ≤ m ∧ m ≤ 0xDFFF then none else some (Char.ofNat m :: chars).reverse

def readString (cs : List Char) : Option (String × List Char) := do
  let (units, rest) ← readUnits [] cs
  let chars ← joinUnits [] units
  return (String.ofList chars, rest)

def natural (ds : List Char) : Nat := ds.foldl (fun n d => 10 * n + (d.toNat - '0'.toNat)) 0

def readFraction : List Char → Option (List Char × List Char)
  | '.' :: cs =>
    let ds := cs.takeWhile isDigit
    if ds = [] then none else some (ds, cs.dropWhile isDigit)
  | cs => some ([], cs)

def readSign : List Char → Bool × List Char
  | '-' :: cs => (true, cs)
  | '+' :: cs => (false, cs)
  | cs => (false, cs)

def readExponent : List Char → Option (Option Int × List Char)
  | c :: cs =>
    if c = 'e' ∨ c = 'E' then
      let (negative, cs) := readSign cs
      let ds := cs.takeWhile isDigit
      if ds = [] then none
      else
        let n : Int := natural ds
        some (some (if negative then -n else n), cs.dropWhile isDigit)
    else some (none, c :: cs)
  | [] => some (none, [])

def decimal (negative : Bool) (digits : Nat) (exponent : Int) : Float :=
  let x := match exponent with
    | .ofNat e => Float.ofScientific (digits * Nat.pow 10 (min e 400)) false 0
    | .negSucc e => Float.ofScientific digits true (e + 1)
  if negative then -x else x

def readNumber (negative : Bool) (cs : List Char) : Option (Json × List Char) := do
  let whole := cs.takeWhile isDigit
  if whole = [] ∨ (whole.head? = some '0' ∧ 1 < whole.length) then none
  else
    let (fraction, rest) ← readFraction (cs.dropWhile isDigit)
    let (exponent, rest) ← readExponent rest
    if fraction = [] ∧ exponent = none then
      let n : Int := natural whole
      return (int (if negative then -n else n), rest)
    else
      let e := exponent.getD 0 - fraction.length
      return (real (decimal negative (natural (whole ++ fraction)) e), rest)

def readWord (cs : List Char) : Option (Json × List Char) :=
  [("null", null), ("true", bool true), ("false", bool false), ("NaN", real nan),
    ("Infinity", real infinity), ("-Infinity", real (-infinity))].findSome? fun (w, v) =>
    (after? w.toList cs).map fun rest => (v, rest)

mutual

/-- Reads a value. The first argument bounds the number of steps. -/
def readValue : Nat → List Char → Option (Json × List Char)
  | 0, _ => none
  | n + 1, cs =>
    match skipSpace cs with
    | '"' :: cs => (readString cs).map fun (s, rest) => (str s, rest)
    | '[' :: cs =>
      match skipSpace cs with
      | ']' :: rest => some (arr [], rest)
      | cs => do
        let (v, rest) ← readValue n cs
        let (vs, rest) ← readItems n rest
        return (arr (v :: vs), rest)
    | '\x7b' :: cs =>
      match skipSpace cs with
      | '\x7d' :: rest => some (obj [], rest)
      | cs => do
        let (f, rest) ← readField n cs
        let (fs, rest) ← readFields n rest
        return (obj (f :: fs), rest)
    | '-' :: cs => (readNumber true cs).or (readWord ('-' :: cs))
    | cs => (readNumber false cs).or (readWord cs)

def readItems : Nat → List Char → Option (List Json × List Char)
  | 0, _ => none
  | n + 1, cs =>
    match skipSpace cs with
    | ']' :: rest => some ([], rest)
    | ',' :: cs => do
      let (v, rest) ← readValue n cs
      let (vs, rest) ← readItems n rest
      return (v :: vs, rest)
    | _ => none

def readField : Nat → List Char → Option ((String × Json) × List Char)
  | 0, _ => none
  | n + 1, cs => do
    let cs ← after? ['"'] (skipSpace cs)
    let (k, rest) ← readString cs
    let rest ← after? [':'] (skipSpace rest)
    let (v, rest) ← readValue n rest
    return ((k, v), rest)

def readFields : Nat → List Char → Option (List (String × Json) × List Char)
  | 0, _ => none
  | n + 1, cs =>
    match skipSpace cs with
    | '\x7d' :: rest => some ([], rest)
    | ',' :: cs => do
      let (f, rest) ← readField n cs
      let (fs, rest) ← readFields n rest
      return (f :: fs, rest)
    | _ => none

end

def ofText? (s : String) : Option Json :=
  match readValue (s.length + 1) s.toList with
  | some (v, rest) => if skipSpace rest = [] then some v else none
  | none => none

end AbleIndex.Json
