import SigmaQuery.Data.Value

/-!
# Reading JSON

Reads one JSON value and keeps the order of the entries of a map. A key that comes twice keeps its
first place and its last value. The reader is given as many steps as the text has characters: each
nested value takes at least one character.
-/

namespace SigmaQuery.Json

def skipBlanks (cs : List Char) : List Char :=
  cs.dropWhile fun c => c == ' ' || c == '\n' || c == '\r' || c == '\t'

def hexDigit? (c : Char) : Option Nat :=
  if '0' ≤ c && c ≤ '9' then some (c.toNat - 48)
  else if 'a' ≤ c && c ≤ 'f' then some (c.toNat - 87)
  else if 'A' ≤ c && c ≤ 'F' then some (c.toNat - 55)
  else none

/-- The number of four hexadecimal digits. -/
def unit? (a b c d : Char) : Option Nat := do
  let w ← hexDigit? a
  let x ← hexDigit? b
  let y ← hexDigit? c
  let z ← hexDigit? d
  return 4096 * w + 256 * x + 16 * y + z

/-- The character of an escape of one letter. -/
def escaped? (c : Char) : Option Char :=
  if c = '"' || c = '\\' || c = '/' then some c
  else if c = 'b' then some (Char.ofNat 8)
  else if c = 'f' then some (Char.ofNat 12)
  else if c = 'n' then some '\n'
  else if c = 'r' then some '\r'
  else if c = 't' then some '\t'
  else none

/-- The rest of a string after its opening quote; `acc` is what was read, last character first. -/
def stringFrom (acc : List Char) : List Char → Option (String × List Char)
  | [] => none
  | '"' :: rest => some (String.ofList acc.reverse, rest)
  | '\\' :: 'u' :: a :: b :: c :: d :: '\\' :: 'u' :: e :: f :: g :: h :: rest =>
    match unit? a b c d, unit? e f g h with
    | some m, some n =>
      if 0xD800 ≤ m && m < 0xDC00 && 0xDC00 ≤ n && n < 0xE000 then
        stringFrom (Char.ofNat (0x10000 + (m - 0xD800) * 0x400 + (n - 0xDC00)) :: acc) rest
      else stringFrom (Char.ofNat n :: Char.ofNat m :: acc) rest
    | _, _ => none
  | '\\' :: 'u' :: a :: b :: c :: d :: rest =>
    match unit? a b c d with
    | some m => stringFrom (Char.ofNat m :: acc) rest
    | none => none
  | '\\' :: c :: rest => match escaped? c with
    | some e => stringFrom (e :: acc) rest
    | none => none
  | c :: rest => if c.toNat < 32 then none else stringFrom (c :: acc) rest

def digitsValue (cs : List Char) : Nat :=
  cs.foldl (fun n c => 10 * n + (c.toNat - 48)) 0

def digitRun (cs : List Char) : List Char × List Char :=
  (cs.takeWhile Char.isDigit, cs.dropWhile Char.isDigit)

def exponentPart (cs : List Char) : Option Int × List Char :=
  let read (negative : Bool) (rest : List Char) : Option Int × List Char :=
    match digitRun rest with
    | ([], _) => (none, cs)
    | (ds, after) => (some (if negative then -(digitsValue ds : Int) else digitsValue ds), after)
  match cs with
  | c :: '-' :: rest => if c = 'e' || c = 'E' then read true rest else (none, cs)
  | c :: '+' :: rest => if c = 'e' || c = 'E' then read false rest else (none, cs)
  | c :: rest => if c = 'e' || c = 'E' then read false rest else (none, cs)
  | [] => (none, cs)

/-- A fraction's digits and what follows them. -/
def fractionPart (cs : List Char) : List Char × List Char :=
  match cs with
  | '.' :: rest => match digitRun rest with
    | ([], _) => ([], cs)
    | run => run
  | _ => ([], cs)

/-- An unsigned number. With a fraction or an exponent it is a decimal. -/
def numberFrom (negative : Bool) (cs : List Char) : Option (Value × List Char) :=
  let (whole, rest) := match cs with
    | '0' :: rest => (['0'], rest)
    | _ => digitRun cs
  if whole.isEmpty then none
  else
    let (part, rest) := fractionPart rest
    let (exponent, rest) := exponentPart rest
    let m : Int := digitsValue (whole ++ part)
    let m := if negative then -m else m
    match part, exponent with
    | [], none => some (.int m, rest)
    | _, _ => some (.decimal (.ofScientific m (exponent.getD 0 - part.length)), rest)

def scalarFrom : List Char → Option (Value × List Char)
  | 'n' :: 'u' :: 'l' :: 'l' :: rest => some (.null, rest)
  | 't' :: 'r' :: 'u' :: 'e' :: rest => some (.bool true, rest)
  | 'f' :: 'a' :: 'l' :: 's' :: 'e' :: rest => some (.bool false, rest)
  | '-' :: rest => numberFrom true rest
  | cs => numberFrom false cs

mutual

def valueFrom : Nat → List Char → Option (Value × List Char)
  | 0, _ => none
  | n + 1, cs => match skipBlanks cs with
    | '"' :: rest => (stringFrom [] rest).map fun (s, after) => (.text s, after)
    | '[' :: rest => match skipBlanks rest with
      | ']' :: after => some (.list [], after)
      | _ => itemsFrom n [] rest
    | '\x7b' :: rest => match skipBlanks rest with
      | '\x7d' :: after => some (.map [], after)
      | _ => entriesFrom n [] rest
    | rest => scalarFrom rest

/-- The items of a list up to its end; `acc` holds those read, last first. -/
def itemsFrom : Nat → List Value → List Char → Option (Value × List Char)
  | 0, _, _ => none
  | n + 1, acc, cs => match valueFrom n cs with
    | none => none
    | some (v, rest) => match skipBlanks rest with
      | ',' :: after => itemsFrom n (v :: acc) after
      | ']' :: after => some (.list (v :: acc).reverse, after)
      | _ => none

def entriesFrom : Nat → Entries → List Char → Option (Value × List Char)
  | 0, _, _ => none
  | n + 1, acc, cs => match skipBlanks cs with
    | '"' :: rest => match stringFrom [] rest with
      | none => none
      | some (k, rest) => match skipBlanks rest with
        | ':' :: rest => match valueFrom n rest with
          | none => none
          | some (v, rest) => match skipBlanks rest with
            | ',' :: after => entriesFrom n (put (.text k) v acc) after
            | '\x7d' :: after => some (.map (put (.text k) v acc), after)
            | _ => none
        | _ => none
    | _ => none

end

/-- Reads a text that is one JSON value with blanks around it. -/
def parse? (s : String) : Option Value :=
  let cs := s.toList
  match valueFrom (2 * cs.length + 2) cs with
  | some (v, rest) => if (skipBlanks rest).isEmpty then some v else none
  | none => none

end SigmaQuery.Json
