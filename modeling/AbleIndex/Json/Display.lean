import AbleIndex.Json.Printer
import AbleIndex.Text.Printable

/-!
The plain text of a value: a string stands for itself, and everything else is written the way a
script would write it, with quoted strings inside lists and tables.
-/

namespace AbleIndex.Json

def quoteMark (cs : List Char) : Char :=
  if cs.contains '\x27' && !cs.contains '"' then '"' else '\x27'

def literalChar (mark c : Char) : List Char :=
  if c = mark ∨ c = '\\' then ['\\', c]
  else if c = '\n' then ['\\', 'n']
  else if c = '\r' then ['\\', 'r']
  else if c = '\t' then ['\\', 't']
  else if Text.isPrintable c then [c]
  else if c.toNat < 0x100 then '\\' :: 'x' :: hexDigits 2 c.toNat
  else if c.toNat < 0x10000 then '\\' :: 'u' :: hexDigits 4 c.toNat
  else '\\' :: 'U' :: hexDigits 8 c.toNat

def literalString (s : String) : List Char :=
  let mark := quoteMark s.toList
  mark :: s.toList.flatMap (literalChar mark) ++ [mark]

mutual

def literal : Json → List Char
  | null => "None".toList
  | bool b => (if b then "True" else "False").toList
  | int n => (Decimal.whole n).toList
  | real x => (Decimal.shortestText (.ofFloat x)).toList
  | str s => literalString s
  | arr [] => ['[', ']']
  | arr (v :: vs) => '[' :: literal v ++ literalItems vs ++ [']']
  | obj [] => ['\x7b', '\x7d']
  | obj ((k, v) :: fs) =>
    '\x7b' :: literalString k ++ [':', ' '] ++ literal v ++ literalFields fs ++ ['\x7d']

def literalItems : List Json → List Char
  | [] => []
  | v :: vs => ',' :: ' ' :: literal v ++ literalItems vs

def literalFields : List (String × Json) → List Char
  | [] => []
  | (k, v) :: fs =>
    ',' :: ' ' :: literalString k ++ [':', ' '] ++ literal v ++ literalFields fs

end

def display : Json → String
  | str s => s
  | v => String.ofList (literal v)

end AbleIndex.Json
