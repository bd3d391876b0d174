import AbleIndex.Text.Digit

namespace AbleIndex.Command

open Text

def isMargin (c : Char) : Bool :=
  let n := c.toNat
  (0x09 ≤ n && n ≤ 0x0D) || n == 0x20 || n == 0x85 || n == 0xA0 || n == 0x1680 ||
    (0x2000 ≤ n && n ≤ 0x200A) || n == 0x2028 || n == 0x2029 || n == 0x202F || n == 0x205F ||
    n == 0x3000

def withoutMargin (cs : List Char) : List Char :=
  ((cs.dropWhile isMargin).reverse.dropWhile isMargin).reverse

def splitSign : List Char → Bool × List Char
  | '-' :: cs => (true, cs)
  | '+' :: cs => (false, cs)
  | cs => (false, cs)

/-- The digits of a number without the underscores between them; `afterDigit` tells whether an
underscore may come next. -/
def digitValues? (afterDigit : Bool) : List Char → Option (List Nat)
  | [] => if afterDigit then some [] else none
  | c :: cs =>
    match digitValue? c with
    | some d => (digitValues? true cs).map (d :: ·)
    | none => if c = '_' ∧ afterDigit then digitValues? false cs else none

def maxDigits : Nat := 4300

def integer? (s : String) : Option Int := do
  let (negative, cs) := splitSign (withoutMargin s.toList)
  let ds ← digitValues? false cs
  if maxDigits < ds.length then none
  else
    let n : Nat := ds.foldl (fun n d => 10 * n + d) 0
    return if negative then -(n : Int) else n

/-- Replaces each digit by an ASCII one and drops underscores between digits. Any other underscore is
kept, and spoils the number. -/
def plainDigits : Bool → List Char → List Char
  | _, [] => []
  | afterDigit, c :: cs =>
    match digitValue? c with
    | some d => Char.ofNat (0x30 + d) :: plainDigits true cs
    | none =>
      if c = '_' ∧ afterDigit ∧ (cs.head?.bind digitValue?).isSome then plainDigits false cs
      else c :: plainDigits false cs

def isAsciiDigit (c : Char) : Bool := '0' ≤ c && c ≤ '9'

def isExponent : List Char → Bool
  | [] => true
  | c :: cs =>
    let ds := (splitSign cs).2
    (c = 'e' || c = 'E') && ds ≠ [] && ds.all isAsciiDigit

def isDecimal (cs : List Char) : Bool :=
  let whole := cs.takeWhile isAsciiDigit
  match cs.dropWhile isAsciiDigit with
  | '.' :: rest =>
    (whole ≠ [] || (rest.takeWhile isAsciiDigit) ≠ []) && isExponent (rest.dropWhile isAsciiDigit)
  | rest => whole ≠ [] && isExponent rest

def isReal (s : String) : Bool :=
  let cs := (splitSign (plainDigits false (withoutMargin s.toList))).2
  ["inf", "infinity", "nan"].contains (String.ofList (cs.map Char.toLower)) || isDecimal cs

end AbleIndex.Command
