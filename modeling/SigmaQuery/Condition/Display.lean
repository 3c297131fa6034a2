import SigmaQuery.Condition.Tree

/-!
# Condition trees as text

A node is shown with its description and the list of its parts, each part as a text of its own, so
that the quotes of inner nodes are escaped once more at each level.
-/

namespace SigmaQuery

namespace Cond

def pairLiteral (a b : Value) : String :=
  "(" ++ a.literal ++ ", " ++ b.literal ++ ")"

def described (description : String) (parts : List String) : String :=
  "[ " ++ description ++ ": " ++ textListLiteral parts ++ " ]"

mutual

/-- The node as text. A bracket shows the parts of what it encloses, which must have parts. -/
def display : Cond → Except Fault String
  | .absent => .ok "None"
  | .all _ items => (displays items).map (described "AND Condition")
  | .any items => (displays items).map (described "OR Condition")
  | .not items => (displays items).map (described "NOT Condition")
  | .isNull items =>
    (displays items).map (described "Condition: Field value is empty or doesn't exists")
  | .notNull items => (displays items).map (described "Condition: Field value is not empty")
  | .group inner => (partTexts inner).map (described "Subexpression")
  | .seq items => (literals items).map fun ts => "[" ++ ", ".intercalate ts ++ "]"
  | .item f v => .ok (pairLiteral f v)
  | .value v => .ok v.display
  | .token t => .ok t.display

def displays : List Cond → Except Fault (List String)
  | [] => .ok []
  | c :: rest => match c.display with
    | .error e => .error e
    | .ok s => (displays rest).map (s :: ·)

def partTexts : Cond → Except Fault (List String)
  | .all _ items => displays items
  | .any items => displays items
  | .not items => displays items
  | .isNull items => displays items
  | .notNull items => displays items
  | .seq items => displays items
  | .item f v => .ok [f.display, v.display]
  | .value (.text s) => .ok (s.toList.map Char.toString)
  | .value (.list vs) => .ok (vs.map Value.display)
  | .value (.map es) => .ok (es.map fun e => e.1.toValue.display)
  | _ => .error .wrongType

/-- The literals of the parts of a bare list. -/
def literals : List Cond → Except Fault (List String)
  | [] => .ok []
  | c :: rest => match c.display with
    | .error e => .error e
    | .ok s =>
      let own := match c with
        | .value v => v.literal
        | _ => s
      (literals rest).map (own :: ·)

end

/-- The number of parts, for a node that has a length. -/
def length : Cond → Except Fault Nat
  | .all _ items => .ok items.length
  | .any items => .ok items.length
  | .not items => .ok items.length
  | .isNull items => .ok items.length
  | .notNull items => .ok items.length
  | .seq items => .ok items.length
  | .item _ _ => .ok 2
  | .value (.text s) => .ok s.length
  | .value (.list vs) => .ok vs.length
  | .value (.map es) => .ok es.length
  | _ => .error .wrongType

def typeName : Cond → String
  | .absent => "NoneType"
  | .all _ _ => "ConditionAND"
  | .any _ => "ConditionOR"
  | .not _ => "ConditionNOT"
  | .isNull _ => "ConditionNULLValue"
  | .notNull _ => "ConditionNotNULLValue"
  | .group _ => "NodeSubexpression"
  | .seq _ => "list"
  | .item _ _ => "tuple"
  | .value v => v.typeName
  | .token _ => "SigmaConditionToken"

/-- The type of the node, as messages write it. -/
def typeText : Cond → String
  | .all _ _ => "<class 'sigma.parser.condition.ConditionAND'>"
  | .any _ => "<class 'sigma.parser.condition.ConditionOR'>"
  | .not _ => "<class 'sigma.parser.condition.ConditionNOT'>"
  | .isNull _ => "<class 'sigma.parser.condition.ConditionNULLValue'>"
  | .notNull _ => "<class 'sigma.parser.condition.ConditionNotNULLValue'>"
  | .group _ => "<class 'sigma.parser.condition.NodeSubexpression'>"
  | .token _ => "<class 'sigma.parser.condition.SigmaConditionToken'>"
  | c => "<class '" ++ c.typeName ++ "'>"

mutual

/-- The lines of an outline of the tree, each level two blanks further in. -/
def outline (indent : String) : Cond → List String
  | .all o items => (indent ++ (all o items).typeName ++ "<list>") :: outlines (indent ++ "  ") items
  | .any items => (indent ++ "ConditionOR<list>") :: outlines (indent ++ "  ") items
  | .not items => (indent ++ "ConditionNOT<list>") :: outlines (indent ++ "  ") items
  | .isNull items => (indent ++ "ConditionNULLValue<list>") :: outlines (indent ++ "  ") items
  | .notNull items => (indent ++ "ConditionNotNULLValue<list>") :: outlines (indent ++ "  ") items
  | .group (.seq items) => (indent ++ "NodeSubexpression<list>") :: outlines (indent ++ "  ") items
  | .group (.value (.list vs)) =>
    (indent ++ "NodeSubexpression<list>") ::
      vs.map fun v => indent ++ "  " ++ v.typeName ++ "=" ++ v.literal
  | .group inner =>
    (indent ++ "NodeSubexpression<" ++ inner.typeName ++ ">") :: outline (indent ++ "  ") inner
  | .absent => [indent ++ "NoneType=None"]
  | .item f v => [indent ++ "tuple=" ++ pairLiteral f v]
  | .value v => [indent ++ v.typeName ++ "=" ++ v.literal]
  | .token t => [indent ++ "SigmaConditionToken=" ++ t.display]
  | .seq _ => [indent ++ "list=[]"]

def outlines (indent : String) : List Cond → List String
  | [] => []
  | c :: rest => outline indent c ++ outlines indent rest

end

end Cond

end SigmaQuery
