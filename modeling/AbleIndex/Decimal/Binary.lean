namespace AbleIndex.Decimal

inductive Binary
  | nan
  | infinite (negative : Bool)
  | finite (negative : Bool) (mantissa : Nat) (exponent : Int)
  deriving DecidableEq

def Binary.ofBits (bits : Nat) : Binary :=
  let negative : Bool := bits / Nat.pow 2 63 % 2 = 1
  let field : Nat := bits / Nat.pow 2 52 % Nat.pow 2 11
  let fraction := bits % Nat.pow 2 52
  if field = 2047 then if fraction = 0 then .infinite negative else .nan
  else if field = 0 then .finite negative fraction (-1074)
  else .finite negative (Nat.pow 2 52 + fraction) ((field : Int) - 1075)

def Binary.ofFloat (x : Float) : Binary := .ofBits x.toBits.toNat

structure Ratio where
  num : Nat
  den : Nat

def Ratio.scaled (n b : Nat) : Int → Ratio
  | .ofNat e => ⟨n * Nat.pow b e, 1⟩
  | .negSucc e => ⟨n, Nat.pow b (e + 1)⟩

/-- The quotient rounded to the nearest whole number; a half goes to the even neighbour. -/
def Ratio.round (r : Ratio) : Nat :=
  let q := r.num / r.den
  let twice := 2 * (r.num % r.den)
  if twice < r.den then q
  else if r.den < twice then q + 1
  else if q % 2 = 0 then q
  else q + 1

end AbleIndex.Decimal
