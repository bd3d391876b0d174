/-!
Indentation. A level is four columns wide, a tab counts as a level, and half a level counts as one.
-/

namespace AbleIndex.Source

def levelWidth : Nat := 4

def isIndent (c : Char) : Bool := c = ' ' || c = '\t'

def columnWidth (c : Char) : Nat := if c = '\t' then levelWidth else 1

def indentWidth (line : List Char) : Nat :=
  (line.takeWhile isIndent).foldl (fun n c => n + columnWidth c) 0

def indentLevel (line : List Char) : Nat := (indentWidth line + levelWidth / 2) / levelWidth

end AbleIndex.Source
