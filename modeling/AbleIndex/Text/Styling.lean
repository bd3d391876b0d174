namespace AbleIndex.Text

def isParameter (c : Char) : Bool := '0' ≤ c && c ≤ '?'

def isIntermediate (c : Char) : Bool := ' ' ≤ c && c ≤ '/'

def isFinal (c : Char) : Bool := '@' ≤ c && c ≤ '~'

/-- The length of the control sequence a text starts with. The three kinds of characters have none in
common, so there is only one way to read it. -/
def sequenceLength? : List Char → Option Nat
  | '\x1b' :: '[' :: cs =>
    let parameters := cs.takeWhile isParameter
    let rest := cs.dropWhile isParameter
    let intermediates := rest.takeWhile isIntermediate
    match rest.dropWhile isIntermediate with
    | c :: _ =>
      if isFinal c then some (parameters.length + intermediates.length + 3) else none
    | [] => none
  | _ => none

/-- A text without control sequences, when its next `n` characters are left out; `kept` is what has been
kept before, last character first. -/
def unstyled (kept : List Char) : Nat → List Char → List Char
  | _, [] => kept.reverse
  | n + 1, _ :: cs => unstyled kept n cs
  | 0, c :: cs =>
    match sequenceLength? (c :: cs) with
    | none => unstyled (c :: kept) 0 cs
    | some n => unstyled kept (n - 1) cs

def dropStyling (s : String) : String := String.ofList (unstyled [] 0 s.toList)

end AbleIndex.Text
