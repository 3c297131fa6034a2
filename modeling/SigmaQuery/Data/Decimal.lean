/-!
# Decimal numbers

A decimal number is a whole number divided by a power of ten. It is kept in lowest terms: the last
digit after the point is not zero. So two decimals are the same number exactly when they are equal.
-/

namespace SigmaQuery

/-- The number `mantissa / 10 ^ scale`. -/
structure Decimal where
  mantissa : Int
  scale : Nat
deriving DecidableEq, Repr, Inhabited

namespace Decimal

/-- The number `m / 10 ^ s` in lowest terms. -/
def ofScaled (m : Int) : Nat → Decimal
  | 0 => ⟨m, 0⟩
  | s + 1 => if m % 10 = 0 then ofScaled (m / 10) s else ⟨m, s + 1⟩

def ofInt (n : Int) : Decimal := ⟨n, 0⟩

def ofScientific (m : Int) (e : Int) : Decimal :=
  if 0 ≤ e then ofInt (m * Int.pow 10 e.toNat) else ofScaled m (-e).toNat

/-- The whole number that the decimal is, if it is one. -/
def toInt? (d : Decimal) : Option Int :=
  if d.scale = 0 then some d.mantissa else none

def truncate (d : Decimal) : Int :=
  Int.tdiv d.mantissa (Int.pow 10 d.scale)

/-! ## Text

The number is written with a point and at least one digit after it. A number of at least `10 ^ 16`,
or nearer to zero than `10 ^ -4`, is written with an exponent.
-/

/-- The digits without the zeros at the end; a lone zero stays. -/
def significant (digits : List Char) : List Char :=
  match (digits.reverse.dropWhile (· == '0')).reverse with
  | [] => ['0']
  | ds => ds

/-- An exponent, with its sign and at least two digits. -/
def exponentText (e : Int) : String :=
  let digits := toString e.natAbs
  (if e < 0 then "e-" else "e+") ++ (if digits.length < 2 then "0" ++ digits else digits)

/-- Text of a positive number whose digits are `digits` and whose point stands `scale` digits from
the end. -/
def positiveText (digits : List Char) (scale : Nat) : String :=
  let e : Int := (digits.length : Int) - scale - 1
  if e < -4 || 16 ≤ e then
    match significant digits with
    | [] => "0" ++ exponentText e
    | [d] => String.ofList [d] ++ exponentText e
    | d :: ds => String.ofList (d :: '.' :: ds) ++ exponentText e
  else if scale = 0 then String.ofList digits ++ ".0"
  else
    let padded := List.replicate (scale + 1 - digits.length) '0' ++ digits
    let whole := padded.take (padded.length - scale)
    let part := padded.drop (padded.length - scale)
    String.ofList (whole ++ '.' :: part)

def text (d : Decimal) : String :=
  if d.mantissa = 0 then "0.0"
  else
    let body := positiveText (toString d.mantissa.natAbs).toList d.scale
    if d.mantissa < 0 then "-" ++ body else body

end Decimal

end SigmaQuery
