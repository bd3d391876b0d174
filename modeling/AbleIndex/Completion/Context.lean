import AbleIndex.Source.Word
import AbleIndex.Text.Lines

namespace AbleIndex

open Source Text

inductive Context
  | member (target : String)
  | decorator (typed : String)
  | importModule (typed : String)
  | importFrom (moduleName typed : String)
  | general
  deriving DecidableEq, Inhabited

namespace Context

def kind : Context → String
  | member _ => "member"
  | decorator _ => "decorator"
  | importModule _ => "import"
  | importFrom _ _ => "from-import"
  | general => "general"

def target : Context → String
  | member target => target
  | importFrom moduleName _ => moduleName
  | _ => ""

def typed : Context → String
  | decorator typed => typed
  | importModule typed => typed
  | importFrom _ typed => typed
  | _ => ""

def isDotted (c : Char) : Bool := isWordChar c || c = '.'

def isListed (c : Char) : Bool := isWordChar c || c = ',' || isBlank c

def isEnd (cs : List Char) : Bool := cs = [] || cs = ['\n']

/-- The identifier that ends a text given from its end: the longest run of word characters, without
the digits it starts with. -/
def trailingWord (reversed : List Char) : List Char :=
  (reversed.takeWhile isWordChar).reverse.dropWhile isDigit

def dropLineFeed : List Char → List Char
  | '\n' :: cs => cs
  | cs => cs

def member? (line : List Char) : Option Context :=
  match dropLineFeed line.reverse with
  | '.' :: before =>
    let word := trailingWord before
    if word = [] then none else some (.member (String.ofList word))
  | _ => none

def decorator? (line : List Char) : Option Context := do
  let rest ← after? ['@'] (skipBlanks line)
  if isEnd (rest.dropWhile isWordChar) then
    some (.decorator (String.ofList (rest.takeWhile isWordChar)))
  else none

def importModule? (line : List Char) : Option Context := do
  let rest ← after? "import".toList (skipBlanks line)
  let rest ← afterBlank? rest
  if isEnd (rest.dropWhile isDotted) then
    some (.importModule (String.ofList (rest.takeWhile isDotted)))
  else none

def lastItem (list : List Char) : List Char := trim ((pieces ',' list).getLastD [])

def importFrom? (line : List Char) : Option Context := do
  let rest ← after? "from".toList (skipBlanks line)
  let rest ← afterBlank? rest
  let moduleName := rest.takeWhile isDotted
  if moduleName = [] then none
  else
    let rest ← afterBlank? (rest.dropWhile isDotted)
    let rest ← after? "import".toList rest
    let rest ← afterBlank? rest
    if rest.all isListed then
      some (.importFrom (String.ofList moduleName) (String.ofList (lastItem rest)))
    else none

def place (line : List Char) : Context :=
  (decorator? line).getD ((importModule? line).getD ((importFrom? line).getD .general))

def ofLine (line : String) : List Context :=
  (member? line.toList).toList ++ [place line.toList]

def classify (line : String) : Context := (member? line.toList).getD (place line.toList)

end Context

end AbleIndex
