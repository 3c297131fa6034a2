import SigmaQuery.Condition.Display

/-!
# Single nodes

Nodes of a condition tree made from arguments and extended item by item. A node that negates or tests
a field has at most one item.
-/

namespace SigmaQuery

/-- The kinds of compound nodes. The last stands for a node without a kind, which cannot be made. -/
inductive NodeKind where
  | conj | disj | negation | nullTest | notNullTest | general
deriving DecidableEq, Repr

namespace NodeKind

def arity : NodeKind → Nat
  | .conj => 4
  | .disj => 4
  | .general => 0
  | _ => 3

/-- The number of the operator: conjunction, disjunction and everything with one item. -/
def operatorNumber : NodeKind → Nat
  | .general => 0
  | .conj => 1
  | .disj => 2
  | _ => 3

def build : NodeKind → List Cond → Cond
  | .conj, items => .all none items
  | .disj, items => .any items
  | .negation, items => .not items
  | .nullTest, items => .isNull items
  | .notNullTest, items => .notNull items
  | .general, items => .seq items

/-- The items that arguments give: the arguments after the second, or none if all are null. -/
def itemsOf (k : NodeKind) (args : List Value) : List Value :=
  if args.all Value.isNull then []
  else (args.drop 2 ++ List.replicate 2 Value.null).take (k.arity - 2)

/-- The items of a node made from arguments. -/
def make (k : NodeKind) (args : List Value) : Except Fault (List Value) :=
  if k.arity < args.length then .error .wrongType
  else if k = .general then .error (.unoffered .abstractNode)
  else .ok (k.itemsOf args)

/-- Adds an item. A node with at most one item takes none. -/
def add (k : NodeKind) (items : List Value) (v : Value) : Except Fault (List Value) :=
  match k with
  | .conj => .ok (items ++ [v])
  | .disj => .ok (items ++ [v])
  | _ => if items.isEmpty then .error .noPart else .error (.value .onlyOneElement)

def isSingle : NodeKind → Bool
  | .conj => false
  | .disj => false
  | _ => true

end NodeKind

end SigmaQuery
