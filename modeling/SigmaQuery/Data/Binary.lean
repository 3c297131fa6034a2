import SigmaQuery.Data.Decimal

/-!
# Binary numbers

A measured number has 53 binary digits. A decimal stands for the binary number nearest to it, and it is
that number which is rounded when it is written with a fixed number of places. Of two numbers that are
equally near, the even one is taken. The numbers are far from the ends of the range of exponents, so
exponents have no bound here.
-/

namespace SigmaQuery

/-- The quotient rounded to a whole number; a half goes to the even neighbour. -/
def roundedQuotient (n d : Nat) : Nat :=
  let q := n / d
  let twice := 2 * (n % d)
  if twice < d then q
  else if d < twice then q + 1
  else q + q % 2

/-- The number `mantissa * 2 ^ exponent`. -/
structure Binary where
  mantissa : Int
  exponent : Int
deriving DecidableEq, Repr, Inhabited

namespace Binary

/-- The fraction `n / d` as a fraction whose whole part counts the units `2 ^ e`. -/
def inUnits (n d : Nat) (e : Int) : Nat × Nat :=
  if 0 ≤ e then (n, d * Nat.pow 2 e.toNat) else (n * Nat.pow 2 (-e).toNat, d)

/-- The exponent with which a fraction has 53 binary digits before the point. -/
def exponentOf (n d : Nat) : Int :=
  let e : Int := (n.log2 : Int) - d.log2 - 52
  let (n, d) := inUnits n d e
  if n < Nat.pow 2 52 * d then e - 1 else e

/-- The binary number nearest to a fraction. -/
def ofFraction (n : Int) (d : Nat) : Binary :=
  if n = 0 then ⟨0, 0⟩
  else
    let e := exponentOf n.natAbs d
    let (a, b) := inUnits n.natAbs d e
    ⟨n.sign * roundedQuotient a b, e⟩

/-- The binary number nearest to a decimal. -/
def ofDecimal (d : Decimal) : Binary :=
  ofFraction d.mantissa (Nat.pow 10 d.scale)

def fraction (b : Binary) : Int × Nat :=
  if 0 ≤ b.exponent then (b.mantissa * Int.pow 2 b.exponent.toNat, 1)
  else (b.mantissa, Nat.pow 2 (-b.exponent).toNat)

def add (a b : Binary) : Binary :=
  let (m, d) := a.fraction
  let (n, e) := b.fraction
  ofFraction (m * e + n * d) (d * e)

def sub (a b : Binary) : Binary :=
  a.add ⟨-b.mantissa, b.exponent⟩

def mul (a b : Binary) : Binary :=
  let (m, d) := a.fraction
  let (n, e) := b.fraction
  ofFraction (m * n) (d * e)

def half (b : Binary) : Binary :=
  ⟨b.mantissa, b.exponent - 1⟩

def less (a b : Binary) : Bool :=
  let (m, d) := a.fraction
  let (n, e) := b.fraction
  m * e < n * d

/-- The number in units of the last of some decimal places, without its sign. -/
def inPlaces (places : Nat) (b : Binary) : Nat :=
  let (n, d) := b.fraction
  roundedQuotient (n.natAbs * Nat.pow 10 places) d

def rounded (places : Nat) (b : Binary) : Decimal :=
  Decimal.ofScaled (b.mantissa.sign * inPlaces places b) places

/-- The number written with a fixed number of places. -/
def fixed (places : Nat) (b : Binary) : String :=
  let n := inPlaces places b
  let digits := (toString n).toList
  let padded := List.replicate (places + 1 - digits.length) '0' ++ digits
  let whole := String.ofList (padded.take (padded.length - places))
  let part := String.ofList (padded.drop (padded.length - places))
  (if b.mantissa < 0 then "-" else "") ++ whole ++ (if places = 0 then "" else "." ++ part)

end Binary

/-- The decimal written with a fixed number of places. -/
def Decimal.fixed (places : Nat) (d : Decimal) : String :=
  (Binary.ofDecimal d).fixed places

def Decimal.less (a b : Decimal) : Bool :=
  a.mantissa * Int.pow 10 b.scale < b.mantissa * Int.pow 10 a.scale

end SigmaQuery
