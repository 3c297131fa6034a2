import SigmaQuery.Condition.Tree

/-!
# Lists of tokens

Access to the tokens of a condition by place, by range and by what they equal. A negative place
counts from the end.
-/

namespace SigmaQuery

/-- The place that a number stands for in a list of some length, if it is in it. -/
def place? (length : Nat) (i : Int) : Option Nat :=
  if 0 ≤ i then (if i < length then some i.toNat else none)
  else if 0 ≤ i + length then some (i + length).toNat
  else none

/-- The bound of a range that a number stands for: cut off at both ends. -/
def bound (length : Nat) (i : Int) : Nat :=
  if 0 ≤ i then min i.toNat length else (i + length).toNat

def itemAt {α : Type} (items : List α) (i : Int) : Except Fault α :=
  match (place? items.length i).bind (items[·]?) with
  | some a => .ok a
  | none => .error .noItem

/-- The items of a range. A missing bound is the start or the end of the list. -/
def slice {α : Type} (start stop : Option Int) (items : List α) : List α :=
  let first := (start.map (bound items.length)).getD 0
  let last := (stop.map (bound items.length)).getD items.length
  (items.take last).drop first

/-- The item at the place that a value gives. Only a whole number is a place. -/
def itemAtKey {α : Type} (items : List α) : Value → Except Fault α
  | .int i => itemAt items i
  | _ => .error .notAnIndex

/-- The place of the first token that equals a value. -/
def tokenIndex (v : Value) : List Token → Except Fault Nat
  | [] => .error .noValue
  | t :: rest => match t.equals v with
    | .error e => .error e
    | .ok true => .ok 0
    | .ok false => (tokenIndex v rest).map (· + 1)

/-- The tokens of a condition that may be of any type. Only a text and an empty list can be read. -/
def tokensOf : Value → Except Fault (List Token)
  | .text s => tokenize s
  | .list [] => .ok []
  | .list _ => .error .noPart
  | v => .error (.type (.notTokenizable v.typeText))

def notAddable (v : Value) : Fault :=
  .type (.notAddable v.typeText v.display)

end SigmaQuery
