import AbleIndex.Text.Blank

namespace AbleIndex.Source

open Text

def isWordStart (c : Char) : Bool :=
  ('A' ≤ c && c ≤ 'Z') || ('a' ≤ c && c ≤ 'z') || c = '_'

def isDigit (c : Char) : Bool := '0' ≤ c && c ≤ '9'

def isWordChar (c : Char) : Bool := isWordStart c || isDigit c

def after? (word cs : List Char) : Option (List Char) :=
  if word.isPrefixOf cs then some (cs.drop word.length) else none

def afterBlank? : List Char → Option (List Char)
  | [] => none
  | c :: cs => if isBlank c then some (skipBlanks cs) else none

def identifier? : List Char → Option (String × List Char)
  | [] => none
  | c :: cs =>
    if isWordStart c then
      some (String.ofList (c :: cs.takeWhile isWordChar), cs.dropWhile isWordChar)
    else none

end AbleIndex.Source
