import AbleIndex.Decimal.Binary

namespace AbleIndex.Decimal

def digits (n : Nat) : List Char := Nat.toDigits 10 n

def padded (width : Nat) (pad : Char) (cs : List Char) : List Char :=
  List.replicate (width - cs.length) pad ++ cs

def withPoint (places n : Nat) : List Char :=
  let ds := padded (places + 1) '0' (digits n)
  if places = 0 then ds
  else ds.take (ds.length - places) ++ '.' :: ds.drop (ds.length - places)

def signed (negative : Bool) (cs : List Char) : String :=
  String.ofList (if negative then '-' :: cs else cs)

def whole (n : Int) : String := signed (n < 0) (digits n.natAbs)

/-- A number with a fixed number of places. The exact value is rounded, and a half goes to the even
neighbour. -/
def fixed (places : Nat) : Binary → String
  | .nan => "nan"
  | .infinite negative => signed negative "inf".toList
  | .finite negative m e =>
    signed negative (withPoint places (Ratio.scaled (m * Nat.pow 10 places) 2 e).round)

def groupDigits : List Char → List Char
  | [] => []
  | c :: cs => if cs.length % 3 = 0 ∧ cs ≠ [] then c :: ',' :: groupDigits cs else c :: groupDigits cs

def grouped (n : Nat) : List Char := groupDigits (digits n)

end AbleIndex.Decimal
