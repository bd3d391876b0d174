import AbleIndex.Decimal.Fixed

/-!
The shortest decimal text of a binary number: the fewest digits that are nearer to it than to any
other, and of those the nearest.
-/

namespace AbleIndex.Decimal

structure Scientific where
  coefficient : Nat
  exponent : Int
  deriving DecidableEq

/-- The numbers that round to `m * 2 ^ e`, in quarters of `2 ^ e`. The ends belong to them when the
mantissa is even, and below a power of two the neighbour is half as far away. -/
def quarterBounds (m : Nat) (e : Int) : Nat × Nat :=
  (4 * m - (if m = Nat.pow 2 52 ∧ -1074 < e then 1 else 2), 4 * m + 2)

def Ratio.le (a b : Ratio) : Bool := a.num * b.den ≤ b.num * a.den

def Ratio.lt (a b : Ratio) : Bool := a.num * b.den < b.num * a.den

def roundsTo (m : Nat) (e : Int) (s : Scientific) : Bool :=
  let x := Ratio.scaled s.coefficient 10 s.exponent
  let low := Ratio.scaled (quarterBounds m e).1 2 (e - 2)
  let high := Ratio.scaled (quarterBounds m e).2 2 (e - 2)
  if m % 2 = 0 then low.le x && x.le high else low.lt x && x.lt high

def neighbours (r : Ratio) (place : Int) : List Scientific :=
  let unit := Ratio.scaled 1 10 place
  let q := r.num * unit.den / (r.den * unit.num)
  let rest := r.num * unit.den - q * (r.den * unit.num)
  let near := if 2 * rest < r.den * unit.num then true
    else if r.den * unit.num < 2 * rest then false else q % 2 = 0
  if near then [⟨q, place⟩, ⟨q + 1, place⟩] else [⟨q + 1, place⟩, ⟨q, place⟩]

def leadingPlace (r : Ratio) : Int :=
  let q := r.num / r.den
  if 0 < q then (digits q).length - 1
  else -(((List.range 400).find? fun k => r.den ≤ r.num * Nat.pow 10 k).getD 400 : Int)

def dropTrailingZeros : Nat → Scientific → Scientific
  | 0, s => s
  | n + 1, s =>
    if s.coefficient ≠ 0 ∧ s.coefficient % 10 = 0 then dropTrailingZeros n ⟨s.coefficient / 10, s.exponent + 1⟩ else s

/-- Seventeen digits always suffice. -/
def shortest (m : Nat) (e : Int) : Scientific :=
  let r := Ratio.scaled m 2 e
  let first := leadingPlace r
  let found := (List.range 17).findSome? fun (k : Nat) =>
    (neighbours r (first - k)).find? fun s => roundsTo m e s && s.coefficient ≠ 0
  dropTrailingZeros 18 (found.getD ⟨0, 0⟩)

/-- Positional text from a thousandth of a tenth up to sixteen digits before the point, with at least
one place; outside that range one digit before the point and an exponent of two digits or more. -/
def Scientific.text (s : Scientific) : List Char :=
  let ds := digits s.coefficient
  let top : Int := s.exponent + ds.length - 1
  if -4 ≤ top ∧ top < 16 then
    if 0 ≤ s.exponent then ds ++ List.replicate s.exponent.toNat '0' ++ ['.', '0']
    else withPoint (-s.exponent).toNat s.coefficient
  else
    let rest := ds.drop 1
    ds.take 1 ++ (if rest.isEmpty then [] else '.' :: rest) ++
      ['e', if top < 0 then '-' else '+'] ++ padded 2 '0' (digits top.natAbs)

def shortestText : Binary → String
  | .nan => "nan"
  | .infinite negative => signed negative "inf".toList
  | .finite negative m e =>
    signed negative (if m = 0 then "0.0".toList else (shortest m e).text)

end AbleIndex.Decimal
