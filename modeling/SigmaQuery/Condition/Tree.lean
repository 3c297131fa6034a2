import SigmaQuery.Condition.Token

/-!
# Condition trees

A search condition is a tree of conjunctions, disjunctions, negations and tests for empty fields.
Its leaves are pairs of a field and a value, plain values, and tokens that no rule took up.

The conditions that a configuration attaches to a log source are one conjunction, used in every
place where the log source applies. Such a conjunction carries the number of its log source, and two
conjunctions with one number are the same. Apart from these no two compound conditions are the same.
-/

namespace SigmaQuery

/-- A node of a condition tree. -/
inductive Cond where
  /-- No condition. -/
  | absent
  /-- All items hold. `origin` is the log source whose conditions these are. -/
  | all (origin : Option Nat) (items : List Cond)
  /-- Some item holds. -/
  | any (items : List Cond)
  /-- The item does not hold. -/
  | not (items : List Cond)
  /-- The field is empty or does not exist. -/
  | isNull (items : List Cond)
  /-- The field is not empty. -/
  | notNull (items : List Cond)
  /-- A condition in brackets. -/
  | group (inner : Cond)
  /-- A bare list of conditions. -/
  | seq (items : List Cond)
  /-- The field has the value, or one of the values of a list. -/
  | item (field value : Value)
  /-- A value that is searched for in all fields. -/
  | value (v : Value)
  /-- A token that was left over. -/
  | token (t : Token)
deriving Repr, Inhabited

namespace Cond

/-- A plain value as a node; null is no condition. -/
def ofValue : Value → Cond
  | .null => .absent
  | v => .value v

/-- A test that a field is empty; without a field the test is empty. -/
def nullTest : Cond → Cond
  | .absent => .isNull []
  | f => .isNull [f]

/-- A test that a field is not empty; without a field the test is empty. -/
def notNullTest : Cond → Cond
  | .absent => .notNull []
  | f => .notNull [f]

def isAbsent : Cond → Bool
  | .absent => true
  | _ => false

def isToken : Cond → Bool
  | .token _ => true
  | _ => false

def isItem : Cond → Bool
  | .item _ _ => true
  | _ => false

/-- The two nodes are the same: leaves by their values, conjunctions by their log source. -/
def same : Cond → Cond → Bool
  | .absent, .absent => true
  | .all (some a) _, .all (some b) _ => a == b
  | .item f v, .item g w => f.same g && v.same w
  | .value v, .value w => v.same w
  | _, _ => false

/-- Some item of the list is the same as the node. -/
def memberOf (c : Cond) (items : List Cond) : Bool :=
  items.any (same c)

/-- The node can stand in a set. A list of plain values can; other lists and maps cannot. -/
def hashable : Cond → Bool
  | .item f (.list vs) => f.hashable && vs.all Value.hashable
  | .item f v => f.hashable && v.hashable
  | .value v => v.hashable
  | .seq _ => false
  | .token _ => false
  | _ => true

end Cond

/-- The two ways to join conditions. -/
inductive Junction where
  | conj
  | disj
deriving DecidableEq, Repr

namespace Junction

def dual : Junction → Junction
  | .conj => .disj
  | .disj => .conj

def build (j : Junction) (origin : Option Nat) (items : List Cond) : Cond :=
  match j with
  | .conj => .all origin items
  | .disj => .any items

/-- The joined conditions, for a node that joins them in this way. -/
def parts? : Junction → Cond → Option (Option Nat × List Cond)
  | .conj, .all origin items => some (origin, items)
  | .disj, .any items => some (none, items)
  | _, _ => none

end Junction

end SigmaQuery
