import SigmaQuery.Condition.Display
import SigmaQuery.Target.Pattern

/-!
# Dialects

The signs and patterns of a query language. A language that has no sign for something leaves it out;
using it is then a fault.
-/

namespace SigmaQuery

/-- How a field with a list of values is written: like a single value, in a way of its own, or not at
all for single values. -/
inductive ListHandling where
  | together
  | apart
  | undecided
deriving DecidableEq, Repr, Inhabited

/-- The signs and patterns of a query language. -/
structure Dialect where
  conjunction : Option String := none
  disjunction : Option String := none
  negation : Option String := none
  listSeparator : Option String := none
  group : Option Pattern := none
  list : Option Pattern := none
  value : Option Pattern := none
  isNull : Option Pattern := none
  notNull : Option Pattern := none
  /-- A field and its value. -/
  item : Option Pattern := none
  /-- A field and its list of values. -/
  itemList : Option Pattern := none
  listHandling : ListHandling := .together
deriving Repr, Inhabited

namespace Dialect

variable (d : Dialect)

/-- Fills a pattern that the language has. -/
def fill (p : Option Pattern) (args : List String) : Except Fault String :=
  match p with
  | some p => p.fill args
  | none => .error .wrongType

def sign : Junction → Option String
  | .conj => d.conjunction
  | .disj => d.disjunction

/-- Joins texts with a sign that the language has. -/
def joinWith (sign : Option String) (parts : List String) : Except Fault String :=
  match sign with
  | some s => .ok (s.intercalate parts)
  | none => .error .noPart

/-- Joins the parts that have a text; without any there is no text. -/
def join (j : Junction) (parts : List (Option String)) : Except Fault (Option String) :=
  match parts.filterMap id with
  | [] => .ok none
  | kept => (joinWith (d.sign j) kept).map some

def negate : Option String → Except Fault (Option String)
  | none => .ok none
  | some t => match d.negation with
    | some s => .ok (some (s ++ t))
    | none => .error .wrongType

/-- Puts a text in brackets. An empty text gives none. -/
def bracket : Option String → Except Fault (Option String)
  | none => .ok none
  | some "" => .ok none
  | some t => (fill d.group [t]).map some

def valueText (clean : String → String) (v : Value) : Except Fault String :=
  fill d.value [clean v.display]

def nullField : Cond → Except Fault String
  | .item _ _ => .error .wrongType
  | c => c.display

def nullText (p : Option Pattern) (field : Cond) : Except Fault (Option String) :=
  match nullField field with
  | .error e => .error e
  | .ok t => (fill p [t]).map some

/-- A value that is written in the way of single values. -/
def takesValue : Value → Bool
  | .text _ => d.listHandling != .undecided
  | .int _ => d.listHandling != .undecided
  | .list _ => d.listHandling == .together
  | _ => false

end Dialect

end SigmaQuery
