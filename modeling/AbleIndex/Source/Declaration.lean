import AbleIndex.Source.Word

namespace AbleIndex.Source

open Text

def className? (line : List Char) : Option String := do
  let rest ← after? "class".toList (skipBlanks line)
  let rest ← afterBlank? rest
  let (name, _) ← identifier? rest
  return name

def skipAsync (line : List Char) : List Char :=
  ((after? "async".toList line).bind afterBlank?).getD line

def functionName? (line : List Char) : Option String := do
  let rest ← after? "fun".toList (skipAsync (skipBlanks line))
  let rest ← afterBlank? rest
  let (name, _) ← identifier? rest
  return name

def binding? (line : List Char) : Option (String × List Char) := do
  let (name, rest) ← identifier? (skipBlanks line)
  let rest ← after? ['='] (skipBlanks rest)
  return (name, skipBlanks rest)

def assignment? (line : List Char) : Option String := (binding? line).map Prod.fst

def construction? (line : List Char) : Option (String × String) := do
  let (variableName, rest) ← binding? line
  let (className, rest) ← identifier? rest
  let _ ← after? ['('] (skipBlanks rest)
  return (variableName, className)

def objectStart? (line : List Char) : Option String := do
  let (name, rest) ← binding? line
  let _ ← after? ['\x7b'] rest
  return name

end AbleIndex.Source
