import AbleIndex.Source.Comment
import AbleIndex.Source.Declaration
import AbleIndex.Source.Indent
import AbleIndex.Source.ObjectKey
import AbleIndex.Symbols.Table
import AbleIndex.Text.Lines

/-!
Reading the names of a module line by line. A line belongs to the innermost class whose declaration
is indented less than it; the keys of an object literal are collected until a closing brace or a line
that is not indented more than the one that opened it.
-/

namespace AbleIndex

open Source Text

structure Frame where
  name : String
  indent : Nat
  deriving DecidableEq

structure Extractor where
  table : SymbolTable := {}
  scopes : List Frame := []
  openObject : Option Frame := none
  inComment : Bool := false
  deriving DecidableEq, Inhabited

namespace Extractor

def leave (indent : Nat) (scopes : List Frame) : List Frame :=
  scopes.dropWhile fun f => indent ≤ f.indent

def declareClass (s : Extractor) (name : String) (indent : Nat) : Extractor :=
  { s with
    table := { s.table with
      functions := s.table.functions.erase name
      classes := s.table.classes.insert name }
    scopes := ⟨name, indent⟩ :: s.scopes }

def declareFunction (s : Extractor) (name : String) : Extractor :=
  match s.scopes with
  | [] =>
    { s with table := { s.table with
        classes := s.table.classes.erase name
        functions := s.table.functions.insert name } }
  | f :: _ => { s with table := { s.table with methods := addMember s.table.methods f.name name } }

def closes (object : Frame) (line : List Char) (indent : Nat) (starts : Bool) : Bool :=
  line.contains '\x7d' || (indent ≤ object.indent && !starts)

def collectKeys (s : Extractor) (line : List Char) (indent : Nat) (starts : Bool) : Extractor :=
  match s.openObject with
  | none => s
  | some object =>
    { s with
      table := { s.table with
        properties := (objectKeys line).foldl (addMember · object.name) s.table.properties }
      openObject := if closes object line indent starts then none else some object }

def bindVariable (s : Extractor) (line : List Char) : Extractor :=
  match assignment? line with
  | none => s
  | some name =>
    { s with table := { s.table with bindings := s.table.bindings.insert name } }

def bindConstruction (s : Extractor) (line : List Char) : Extractor :=
  match construction? line with
  | none => s
  | some (name, className) =>
    { s with table := { s.table with
        variableTypes := s.table.variableTypes.insert name className } }

def openLiteral (s : Extractor) (line : List Char) (indent : Nat) : Extractor :=
  match objectStart? line with
  | none => s
  | some name => { s with openObject := some ⟨name, indent⟩ }

/-- A line that declares neither a class nor a function. Variables are bound at the outermost level
only. -/
def readStatement (s : Extractor) (line : List Char) (indent : Nat) : Extractor :=
  let s := if indent = 0 then s.bindConstruction line else s
  let s := s.openLiteral line indent
  let s := s.collectKeys line indent (objectStart? line).isSome
  if indent = 0 then s.bindVariable line else s

def readCode (s : Extractor) (line : List Char) : Extractor :=
  let indent := indentLevel line
  let s := { s with scopes := leave indent s.scopes }
  match className? line with
  | some name => s.declareClass name indent
  | none =>
    match functionName? line with
    | some name => s.declareFunction name
    | none => s.readStatement line indent

def readLine (s : Extractor) (line : List Char) : Extractor :=
  let r := stripComments s.inComment line
  let s := { s with inComment := r.2 }
  if isBlankLine r.1 then s else s.readCode r.1

def read (s : Extractor) (text : List Char) : Extractor := (sourceLines text).foldl readLine s

end Extractor

def SymbolTable.ofText (text : String) : SymbolTable :=
  (({} : Extractor).read text.toList).table

end AbleIndex
