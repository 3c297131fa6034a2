import SigmaQuery.Data.Decimal
import SigmaQuery.Text.Numeral

/-!
# Decimal numbers as text

A decimal may have a sign, a point with digits on at least one side of it, and an exponent. Single
underscores may stand between digits, and blanks around all of it.
-/

namespace SigmaQuery.Text

def digitCount (cs : List Char) : Nat :=
  cs.countP fun c => c != '_'

/-- Reads digits before and after a point. One of the two may be missing. -/
def pointed? (cs : List Char) : Option (Nat × Nat) :=
  let whole := cs.takeWhile (· != '.')
  match cs.dropWhile (· != '.') with
  | [] => (natural? whole).map fun n => (n, 0)
  | _ :: part =>
    match whole, part with
    | [], [] => none
    | _, [] => (natural? whole).map fun n => (n, 0)
    | [], _ => (natural? part).map fun n => (n, digitCount part)
    | _, _ => do
      let a ← natural? whole
      let b ← natural? part
      return (a * Nat.pow 10 (digitCount part) + b, digitCount part)

def exponent? : List Char → Option Int
  | '-' :: rest => (natural? rest).map fun n => -(n : Int)
  | '+' :: rest => (natural? rest).map Int.ofNat
  | cs => (natural? cs).map Int.ofNat

def unsigned? (cs : List Char) : Option (Nat × Int) := do
  let mark := fun c => c == 'e' || c == 'E'
  let (m, scale) ← pointed? (cs.takeWhile fun c => !mark c)
  match cs.dropWhile fun c => !mark c with
  | [] => return (m, -(scale : Int))
  | _ :: rest => return (m, (← exponent? rest) - scale)

def decimal? (s : String) : Option Decimal :=
  match trimBlanks s.toList with
  | '-' :: rest => (unsigned? rest).map fun (m, e) => .ofScientific (-(m : Int)) e
  | '+' :: rest => (unsigned? rest).map fun (m, e) => .ofScientific m e
  | cs => (unsigned? cs).map fun (m, e) => .ofScientific m e

end SigmaQuery.Text
