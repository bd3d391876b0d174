import AbleIndex.Source.Word

namespace AbleIndex.Source

open Text

def bareKey? (cs : List Char) : Option (String × Nat) := do
  let (key, rest) ← identifier? cs
  let _ ← after? [':'] (skipBlanks rest)
  return (key, key.length + (rest.takeWhile isBlank).length + 1)

def quotedKey? (cs : List Char) : Option (String × Nat) := do
  let rest ← after? ['"'] cs
  let key := rest.takeWhile (· ≠ '"')
  if key.isEmpty then none
  else
    let rest ← after? ['"'] (rest.dropWhile (· ≠ '"'))
    let _ ← after? [':'] (skipBlanks rest)
    return (String.ofList key, key.length + 2 + (rest.takeWhile isBlank).length + 1)

/-- Everything a reader finds in a text from left to right, when the next `n` characters are passed
over. Behind a find the search goes on after the characters it takes up, elsewhere at the next one. -/
def findAll (reader : List Char → Option (String × Nat)) : Nat → List Char → List String
  | _, [] => []
  | n + 1, _ :: cs => findAll reader n cs
  | 0, c :: cs =>
    match reader (c :: cs) with
    | none => findAll reader 0 cs
    | some (key, n) => key :: findAll reader (n - 1) cs

def bareKeys (line : List Char) : List String := findAll bareKey? 0 line

def quotedKeys (line : List Char) : List String := findAll quotedKey? 0 line

def objectKeys (line : List Char) : List String := bareKeys line ++ quotedKeys line

end AbleIndex.Source
