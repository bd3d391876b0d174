import AbleIndex.Text.Lines
import AbleIndex.Text.Units

namespace AbleIndex

open Text

structure Position where
  line : Nat
  column : Nat
  deriving DecidableEq, Inhabited

def Position.limit : Nat := 2147483647

def Position.ofInts? (line column : Int) : Option Position :=
  if 0 ≤ line ∧ line ≤ limit ∧ 0 ≤ column ∧ column ≤ limit then some ⟨line.toNat, column.toNat⟩
  else none

structure Edit where
  range : Option (Position × Position)
  text : String
  deriving DecidableEq, Inhabited

namespace Document

def lines (text : String) : List (List Char) := (documentLines text.toList).map (·.text)

/-- A line that ends in a carriage return and a line feed counts only the latter. -/
def measured (line : List Char) : List Char :=
  match line.reverse with
  | '\n' :: '\r' :: cs => (('\n' : Char) :: cs).reverse
  | _ => line

def charIndex (e : Encoding) (line : List Char) (column : Nat) : Nat :=
  let line := measured line
  let n := e.units line
  e.charsToReach (if n < column then n - 1 else column) line

def chomp (line : List Char) : List Char :=
  (line.reverse.dropWhile fun c => c = '\r' || c = '\n').reverse

def textBefore (e : Encoding) (text : String) (p : Position) : String :=
  match (lines text)[p.line]? with
  | none => ""
  | some line => String.ofList ((chomp line).take (charIndex e line p.column))

def resolve (e : Encoding) (ls : List (List Char)) (p : Position) : Nat × Nat :=
  match ls[p.line]? with
  | some line => (p.line, charIndex e line p.column)
  | none => (ls.length - 1, e.units (ls.getLastD []))

def editLine (start stop : Nat × Nat) (inserted : List Char) (i : Nat) (line : List Char) :
    List Char :=
  if i < start.1 ∨ stop.1 < i then line
  else
    (if i = start.1 then line.take start.2 ++ inserted else []) ++
      (if i = stop.1 then line.drop stop.2 else [])

def apply (e : Encoding) (text : String) (edit : Edit) : String :=
  match edit.range with
  | none => edit.text
  | some (start, stop) =>
    match lines text with
    | [] => text ++ edit.text
    | ls =>
      let start := resolve e ls start
      let stop := resolve e ls stop
      String.ofList ((ls.mapIdx (editLine start stop edit.text.toList)).flatten)

end Document

end AbleIndex
