import SigmaQuery.Text.Blank
import SigmaQuery.Text.Digit

/-!
# Whole numbers as text

A numeral is a row of digits of any script, with a sign in front if wanted, single underscores
between digits and blanks around it.
-/

namespace SigmaQuery.Text

/-- Reads digits with single underscores between them; `n` is the number read so far. -/
def digitsFrom (n : Nat) : List Char → Option Nat
  | [] => some n
  | '_' :: c :: rest => match digit? c with
    | some d => digitsFrom (10 * n + d) rest
    | none => none
  | c :: rest => match digit? c with
    | some d => digitsFrom (10 * n + d) rest
    | none => none

/-- Reads an unsigned numeral, which begins with a digit. -/
def natural? : List Char → Option Nat
  | [] => none
  | c :: rest => match digit? c with
    | some d => digitsFrom d rest
    | none => none

def integer? (s : String) : Option Int :=
  match trimBlanks s.toList with
  | '-' :: rest => (natural? rest).map fun n => -(n : Int)
  | '+' :: rest => (natural? rest).map Int.ofNat
  | cs => (natural? cs).map Int.ofNat

end SigmaQuery.Text
