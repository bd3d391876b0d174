import AbleIndex.Decimal.Shortest
import AbleIndex.Json.Basic

/-!
JSON text. It is printable ASCII: every other character is written as the code units of its UTF-16
form.
Each item stands on a line of its own, indented by two spaces more than what holds it.
-/

namespace AbleIndex.Json

def hexDigits (width n : Nat) : List Char := Decimal.padded width '0' (Nat.toDigits 16 n)

def unitEscape (n : Nat) : List Char := '\\' :: 'u' :: hexDigits 4 n

def escapeChar (c : Char) : List Char :=
  if c = '"' then ['\\', '"']
  else if c = '\\' then ['\\', '\\']
  else if c = '\n' then ['\\', 'n']
  else if c = '\r' then ['\\', 'r']
  else if c = '\t' then ['\\', 't']
  else if c = '\x08' then ['\\', 'b']
  else if c = '\x0c' then ['\\', 'f']
  else if c.toNat < 0x20 then unitEscape c.toNat
  else if c.toNat < 0x7f then [c]
  else if c.toNat < 0x10000 then unitEscape c.toNat
  else
    let n := c.toNat - 0x10000
    unitEscape (0xD800 + n / 0x400) ++ unitEscape (0xDC00 + n % 0x400)

def quote (s : String) : List Char := '"' :: s.toList.flatMap escapeChar ++ ['"']

def realText : Decimal.Binary → List Char
  | .nan => "NaN".toList
  | .infinite negative => (Decimal.signed negative "Infinity".toList).toList
  | x => (Decimal.shortestText x).toList

def newLine (depth : Nat) : List Char := '\n' :: List.replicate (2 * depth) ' '

mutual

def print (depth : Nat) : Json → List Char
  | null => "null".toList
  | bool b => (if b then "true" else "false").toList
  | int n => (Decimal.whole n).toList
  | real x => realText (.ofFloat x)
  | str s => quote s
  | arr [] => ['[', ']']
  | arr (v :: vs) =>
    '[' :: newLine (depth + 1) ++ print (depth + 1) v ++ printItems (depth + 1) vs ++
      newLine depth ++ [']']
  | obj [] => ['\x7b', '\x7d']
  | obj ((k, v) :: fs) =>
    '\x7b' :: newLine (depth + 1) ++ quote k ++ [':', ' '] ++ print (depth + 1) v ++
      printFields (depth + 1) fs ++ newLine depth ++ ['\x7d']

def printItems (depth : Nat) : List Json → List Char
  | [] => []
  | v :: vs => ',' :: newLine depth ++ print depth v ++ printItems depth vs

def printFields (depth : Nat) : List (String × Json) → List Char
  | [] => []
  | (k, v) :: fs =>
    ',' :: newLine depth ++ quote k ++ [':', ' '] ++ print depth v ++ printFields depth fs

end

def text (v : Json) : String := String.ofList (print 0 v)

end AbleIndex.Json
