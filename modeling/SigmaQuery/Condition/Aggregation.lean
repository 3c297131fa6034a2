import SigmaQuery.Config.Basic

/-!
# Aggregations

After the search a condition may have an aggregation: a function of a field, counted over groups and
compared with a threshold, or searches that must or must not be near. The tokens of an aggregation
drive a machine with a fixed table of moves.
-/

namespace SigmaQuery

/-- The functions of an aggregation. -/
inductive AggregateFunction where
  | count | min | max | avg | sum | near
deriving DecidableEq, Repr, Inhabited

namespace AggregateFunction

def number : AggregateFunction → Nat
  | .count => 1 | .min => 2 | .max => 3 | .avg => 4 | .sum => 5 | .near => 6

def name : AggregateFunction → String
  | .count => "count" | .min => "min" | .max => "max" | .avg => "avg" | .sum => "sum"
  | .near => "near"

def every : List AggregateFunction := [.count, .min, .max, .avg, .sum, .near]

def ofName? (s : String) : Option AggregateFunction :=
  every.find? fun f => f.name == s

end AggregateFunction

/-- The searches of a near aggregation. `excluding` says to which list the next one goes. -/
structure NearTerms where
  included : List String := []
  excluded : List String := []
  excluding : Bool := false
deriving Repr, Inhabited

namespace NearTerms

def add (t : NearTerms) (name : String) : NearTerms :=
  if t.excluding then { t with excluded := t.excluded ++ [name] }
  else { t with included := t.included ++ [name] }

end NearTerms

/-- The states of the machine. -/
inductive AggregationState where
  | start | function | opened | field | closed | by | grouped | compared | done
  | nearTerm | nearNext | nearAnd
deriving DecidableEq, Repr, Inhabited

namespace AggregationState

def number : AggregationState → Int
  | .start => 0 | .function => 1 | .opened => 2 | .field => 3 | .closed => 4 | .by => 5
  | .grouped => 6 | .compared => 7 | .done => -1 | .nearTerm => 8 | .nearNext => 9 | .nearAnd => 10

def isFinal : AggregationState → Bool
  | .done => true
  | .nearNext => true
  | _ => false

end AggregationState

/-- What the machine does with a token's text. -/
inductive AggregationAction where
  | none | setFunction | startNear | setField | setGroup | setOperator | setThreshold
  | addTerm | include | exclude
deriving DecidableEq, Repr

def comparisonKinds : List TokenKind := [.eq, .lt, .lte, .gt, .gte]

def aggregationMove : AggregationState → TokenKind → Option (AggregationAction × AggregationState)
  | .start, .agg => some (.setFunction, .function)
  | .start, .near => some (.startNear, .nearTerm)
  | .function, .lpar => some (.none, .opened)
  | .opened, .rpar => some (.none, .closed)
  | .opened, .id => some (.setField, .field)
  | .field, .rpar => some (.none, .closed)
  | .closed, .by => some (.setOperator, .by)
  | .closed, k => if comparisonKinds.contains k then some (.setOperator, .compared) else none
  | .by, .id => some (.setGroup, .grouped)
  | .grouped, k => if comparisonKinds.contains k then some (.setOperator, .compared) else none
  | .compared, .id => some (.setThreshold, .done)
  | .nearTerm, .id => some (.addTerm, .nearNext)
  | .nearNext, .and => some (.include, .nearAnd)
  | .nearAnd, .not => some (.exclude, .nearTerm)
  | .nearAnd, .id => some (.addTerm, .nearNext)
  | _, _ => none

/-- A parsed aggregation. The texts with a name in `Text` are as the rule has them. -/
structure Aggregation where
  state : AggregationState := .start
  function : Option AggregateFunction := none
  functionText : Option String := none
  field : Option String := none
  fieldText : Option String := none
  group : Option String := none
  groupText : Option String := none
  operator : Option String := none
  operatorText : Option String := none
  threshold : Option String := none
  thresholdText : Option String := none
  near : Option NearTerms := none
deriving Repr, Inhabited

namespace Aggregation

def readFunction (name : String) : Except Fault AggregateFunction :=
  match AggregateFunction.ofName? name with
  | some f => .ok f
  | none => .error (.parse (.unknownFunction name))

/-- The one field that a name is mapped to. -/
def readField (c : Config) (name : String) : Except Fault String :=
  match c.fieldName (.text name) with
  | .error e => .error e
  | .ok (.text s) => .ok s
  | .ok _ => .error (.unoffered .severalAggregationFields)

/-- Carries out an action with the text of a token. -/
def act (c : Config) (a : Aggregation) (text : String) :
    AggregationAction → Except Fault Aggregation
  | .none => .ok a
  | .setFunction => (readFunction text).map fun f =>
    { a with function := some f, functionText := some text }
  | .startNear => (readFunction text).map fun f =>
    { a with near := some {}, function := some f, functionText := some text }
  | .setField => (readField c text).map fun f =>
    { a with field := some f, fieldText := some text }
  | .setGroup => (readField c text).map fun f =>
    { a with group := some f, groupText := some text }
  | .setOperator => .ok { a with operator := some text, operatorText := some text }
  | .setThreshold => .ok { a with threshold := some text, thresholdText := some text }
  | .addTerm => .ok { a with near := a.near.map (·.add text) }
  | .include => .ok { a with near := a.near.map fun t => { t with excluding := false } }
  | .exclude => .ok { a with near := a.near.map fun t => { t with excluding := true } }

def run (c : Config) (a : Aggregation) : List Token → Except Fault Aggregation
  | [] =>
    if a.state.isFinal then .ok a else .error (.parse (.unexpectedEnd a.state.number))
  | t :: rest =>
    if a.state = .done then .error (.parse (.tokenAfterEnd t.display))
    else match aggregationMove a.state t.kind with
      | none => .error (.parse (.unexpectedToken t.display t.position))
      | some (action, next) => match a.act c t.text action with
        | .error e => .error e
        | .ok b => run c { b with state := next } rest

def ofTokens (c : Config) (tokens : List Token) : Except Fault Aggregation :=
  run c {} tokens

/-! ## Text -/

/-- The attributes of an aggregation with their values, in the order in which they are set. -/
def attributes (a : Aggregation) : List (String × Value) :=
  let optional := fun (name : String) (v : Option String) => (v.map fun s => (name, Value.text s)).toList
  let names := fun (terms : List String) => Value.list (terms.map .text)
  let near := match a.near with
    | none => []
    | some t => [("include", names t.included), ("exclude", names t.excluded),
        ("current", names (if t.excluding then t.excluded else t.included))]
  [("aggfield", optionValue a.field), ("groupfield", optionValue a.group),
    ("state", .int a.state.number)] ++ near ++
    (a.function.map fun f => ("aggfunc", Value.int f.number)).toList ++
    optional "aggfunc_notrans" a.functionText ++
    optional "aggfield_notrans" a.fieldText ++
    optional "cond_op" a.operator ++ optional "cond_op_notrans" a.operatorText ++
    optional "groupfield_notrans" a.groupText ++
    optional "condition" a.threshold ++ optional "condition_notrans" a.thresholdText

/-- The aggregation with another value of an attribute. Null takes the value away, and a comparison
is written with whatever value it gets. -/
def withAttribute (a : Aggregation) (name : String) (v : Value) : Aggregation :=
  let shown := if v.isNull then none else some v.display
  match name with
  | "cond_op" => { a with operator := shown }
  | "cond_op_notrans" => { a with operatorText := v.text? }
  | "condition" => { a with threshold := shown }
  | "condition_notrans" => { a with thresholdText := v.text? }
  | "aggfield" => { a with field := v.text? }
  | "aggfield_notrans" => { a with fieldText := v.text? }
  | "groupfield" => { a with group := v.text? }
  | "groupfield_notrans" => { a with groupText := v.text? }
  | "aggfunc" =>
    { a with function := AggregateFunction.every.find? fun f => (Value.int f.number).same v }
  | "aggfunc_notrans" => { a with functionText := v.text? }
  | _ => a

/-- The aggregation as text. The rule and the configuration are shown as one letter each. -/
def display (a : Aggregation) : String :=
  "[ Parsed: parser=P config=C " ++
    " ".intercalate (a.attributes.map fun (k, v) => k ++ "=" ++ v.display) ++ " ]"

end Aggregation

end SigmaQuery
