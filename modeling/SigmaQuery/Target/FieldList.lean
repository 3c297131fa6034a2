import SigmaQuery.Target.TextQuery

/-!
# Field lists

A target that collects the names of the fields that rules use.
-/

namespace SigmaQuery

/-- A target that lists fields. -/
structure FieldList where
  options : Options
  fields : List Value := []
deriving Repr, Inhabited

namespace FieldList

/-- The fields of a list of values: none for each. -/
def listFields (vs : List Value) : Except Fault Value :=
  if vs.all Value.isPlain then .ok (.list (vs.map fun _ => .list []))
  else .error (.type .listValues)

def itemField (field v : Value) : Except Fault Value :=
  match v with
  | .text _ => .ok (.list [field])
  | .int _ => .ok (.list [field])
  | .list _ => .ok (.list [field])
  | _ => .error (.type (.mapValueOrList v.typeText))

def testedField (items : List Cond) : Except Fault Value :=
  match items with
  | [] => .ok (.list [.null])
  | .value v :: _ => .ok (.list [v])
  | .absent :: _ => .ok (.list [.null])
  | c :: _ => .error (unexpectedNode c)

mutual

/-- The fields of a tree, nested like the tree. -/
def render : Cond → Except Fault Value
  | .all _ items => do return .list (← renderEach items)
  | .any items => do return .list (← renderEach items)
  | .not [] => .error (unexpectedNode .absent)
  | .not (c :: _) => render c
  | .group inner => render inner
  | .isNull items => testedField items
  | .notNull items => testedField items
  | .seq items => listFields (seqValues items)
  | .item field v => itemField field v
  | .value (.text _) => .ok (.list [])
  | .value (.int _) => .ok (.list [])
  | .value (.list vs) => listFields vs
  | c => .error (unexpectedNode c)

def renderEach : List Cond → Except Fault (List Value)
  | [] => .ok []
  | c :: rest => do
    let v ← render c
    return v :: (← renderEach rest)

end

/-- The fields of an aggregation: the group and the field of the function. -/
def aggregationFields (a : Aggregation) : List Value :=
  (a.group.toList ++ a.field.toList).map .text

def add (known : List Value) (fields : List Value) : List Value :=
  fields.foldl (fun known f => if f.memberOf known then known else known ++ [f]) known

def addCondition (p : ParsedCondition) : GenerateM FieldList (Option String) := do
  let nested ← FaultM.ofExcept (render p.search)
  let found := nested.leaves ++ (p.aggregation.map aggregationFields).getD []
  if found.all Value.hashable then
    modify fun w => { w with target := { w.target with fields := add w.target.fields found } }
    return none
  else throw .wrongType

/-- Adds the fields of the first condition of a rule. There is no query. -/
def generate : GenerateM FieldList (Option String) :=
  GenerateM.first addCondition (fun _ => pure (some "")) (fun _ => pure (some ""))

def finalize (t : FieldList) : Except Fault String :=
  let names := t.fields.filterMap Value.text?
  if names.length = t.fields.length then .ok ("\n".intercalate (sortedSet names))
  else .error .wrongType

end FieldList

end SigmaQuery
