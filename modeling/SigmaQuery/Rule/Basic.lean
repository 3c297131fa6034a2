import SigmaQuery.Condition.Aggregation
import SigmaQuery.Condition.Search

/-!
# Rules

A rule is a document with a detection part. The detection part holds definitions and one or more
conditions over them. Each condition is a search and, after a bar, an aggregation.
-/

namespace SigmaQuery

structure ParsedCondition where
  search : Cond
  aggregation : Option Aggregation := none
deriving Repr, Inhabited

/-- A parsed rule, with its document. -/
structure Rule where
  document : Value
  detection : Detection
  conditions : List ParsedCondition
deriving Repr, Inhabited

/-- The aggregation of the elements after the bar. Only tokens can be read. -/
def aggregationOf (c : Config) (elements : List Cond) : Except Fault Aggregation :=
  let tokens := elements.filterMap fun
    | .token t => some t
    | _ => none
  if tokens.length = elements.length then Aggregation.ofTokens c tokens else .error .noPart

def parseCondition (source : Except Fault (Option LogSource)) (d : Detection)
    (elements : List Cond) : ConfigM ParsedCondition :=
  match splitKind? .pipe elements with
  | none => do return { search := ← parseSearch Config.simplify source d elements }
  | some (before, _, after) => do
    let search ← parseSearch Config.simplify source d before
    let aggregation ← FaultM.ofExcept (aggregationOf (← get) after)
    return { search, aggregation := some aggregation }

namespace Rule

/-- The elements of a condition of a rule. -/
def elementsOf : Value → Except Fault (List Cond)
  | .text s => (tokenize s).map fun tokens => tokens.map .token
  | .list items => .ok (items.map .ofValue)
  | v => .error (.type (.notTokenizable v.typeText))

def elementsOfEach : List Value → Except Fault (List (List Cond))
  | [] => .ok []
  | v :: rest => match elementsOf v with
    | .error e => .error e
    | .ok elements => (elementsOfEach rest).map (elements :: ·)

/-- The conditions of a detection part, as elements. A condition of another type than text or list
is none. -/
def conditionElements (entries : Entries) : Except Fault (List (List Cond)) :=
  match lookup (.text "condition") entries with
  | none => .error (.parse .noCondition)
  | some (.text s) => elementsOfEach [.text s]
  | some (.list items) => elementsOfEach items
  | some _ => .ok []

def parseConditions (source : Except Fault (Option LogSource)) (d : Detection) :
    List (List Cond) → ConfigM (List ParsedCondition)
  | [] => pure []
  | elements :: rest => do
    let c ← parseCondition source d elements
    return c :: (← parseConditions source d rest)

/-- The detection part of a rule document. -/
def detectionEntries : Value → Except Fault Entries
  | .map entries => match lookup (.text "detection") entries with
    | none => .error (.parse .noDetection)
    | some (.map detection) => .ok detection
    | some _ => .error .noPart
  | _ => .error .wrongType

/-- The rule with its searches as they are now. -/
def current (c : Config) (r : Rule) : Rule :=
  { r with conditions := r.conditions.map fun p => { p with search := c.current p.search } }

/-- Parses the conditions of a rule document over definitions. -/
def parseOver (document : Value) (detection : Detection) : ConfigM Rule := do
  let entries ← FaultM.ofExcept (detectionEntries document)
  let elements ← FaultM.ofExcept (conditionElements entries)
  let conditions ← parseConditions ((← get).logSourceOf document) detection elements
  return Rule.current (← get) { document, detection, conditions }

def parse (document : Value) : ConfigM Rule := do
  let entries ← FaultM.ofExcept (detectionEntries document)
  parseOver document (Detection.ofEntries entries)

def logSource (r : Rule) (c : Config) : Except Fault (Option LogSource) :=
  c.logSourceOf r.document

end Rule

end SigmaQuery
