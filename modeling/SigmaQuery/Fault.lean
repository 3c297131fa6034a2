import SigmaQuery.Data.Display

/-!
# Faults

Everything that can go wrong, by cause. A fault that the rules of the domain name has a message.
The others arise where a document has a part of the wrong type or lacks a part, and have none.
-/

namespace SigmaQuery

/-- A rule's condition, definitions or aggregation cannot be read. -/
inductive ParseFault where
  | unexpectedText (rest : String)
  | missingClose
  | emptyGroup (position : Nat)
  | closeBeforeOpen (close opening : Nat)
  | unknownFunction (name : String)
  | noDetection
  | noCondition
  | unknownDefinition (name : String)
  | notADefinition (v : Value)
  | badDefinitionItem
  | tokenAfterEnd (token : String)
  | unexpectedToken (token : String) (position : Nat)
  | unexpectedEnd (state : Int)
deriving Repr

namespace ParseFault

def message : ParseFault → String
  | .unexpectedText rest => "Unexpected token in condition at position " ++ rest
  | .missingClose => "Missing matching closing parentheses"
  | .emptyGroup p => "Empty subexpression at " ++ toString p
  | .closeBeforeOpen c o =>
    "Closing parentheses at position " ++ toString c ++ " precedes opening at position " ++
      toString o
  | .unknownFunction name => "Unknown aggregation function '" ++ name ++ "'"
  | .noDetection => "No detection definitions found"
  | .noCondition => "No condition found"
  | .unknownDefinition name => "Unknown definition '" ++ name ++ "'"
  | .notADefinition v =>
    "Expected map or list, got type " ++ v.typeText ++ ": '" ++ v.display ++ "'"
  | .badDefinitionItem => "Definition list may only contain plain values or maps"
  | .tokenAfterEnd token => "No further token expected, but read " ++ token
  | .unexpectedToken token p =>
    "Unexpected token " ++ token ++ " at " ++ toString p ++ " in aggregation expression"
  | .unexpectedEnd state =>
    "Unexpected end of aggregation expression, state=" ++ toString state

end ParseFault

/-- A configuration cannot be read. -/
inductive ConfigFault where
  | logSourcesNotMap
  | logSourceNotMap
  | attributeNotText
  | matchesNothing
  | indexNotTextOrList
  | indexPatternNotText
  | conditionsNotMap
  | badDefault
  | notACondition
deriving Repr

namespace ConfigFault

def message : ConfigFault → String
  | .logSourcesNotMap => "Logsources must be a map"
  | .logSourceNotMap => "Logsource definitions must be maps"
  | .attributeNotText => "Logsource category, product or service must be a string"
  | .matchesNothing => "Log source definition will not match"
  | .indexNotTextOrList => "Logsource index must be string or list of strings"
  | .indexPatternNotText => "Logsource index patterns must be strings"
  | .conditionsNotMap => "Logsource conditions must be a map"
  | .badDefault => "Default mapping must be single value or list"
  | .notACondition => "Expected condition or default"

end ConfigFault

/-- A filter expression cannot be read. -/
inductive FilterFault where
  | unknownLevel (level condition : String)
  | unknownStatus (status condition : String)
  | unknownCondition (condition : String)
deriving Repr

namespace FilterFault

def message : FilterFault → String
  | .unknownLevel l c => "Unknown level '" ++ l ++ "' in condition '" ++ c ++ "'"
  | .unknownStatus s c => "Unknown status '" ++ s ++ "' in condition '" ++ c ++ "'"
  | .unknownCondition c => "Unknown condition '" ++ c ++ "'"

end FilterFault

/-- The target system has no such feature. -/
inductive Unsupported where
  | severalIndices
  | noTable
  | noFieldRule (field : String)
  | logonType (n : String)
deriving Repr

namespace Unsupported

def message : Unsupported → String
  | .severalIndices => "Multiple target indices are not supported by Kibana"
  | .noTable => "No WDATP table could be determined from Sigma rule"
  | .noFieldRule f => "No mapping defined for field '" ++ f ++ "'"
  | .logonType n => "Logon type " ++ n ++ " unknown and can't be mapped"

end Unsupported

/-- A feature that is not offered for a target, or nowhere. -/
inductive Unoffered where
  | tokenComparison
  | abstractNode
  | severalAggregationFields
  | nodeType
  | aggregation
  | nearAggregation
  | listNode (title : Value)
  | aggregationFunction (title : Value) (name : String)
  | outputType (v : Value)
  | keywords
  | onlyCount
deriving Repr

namespace Unoffered

def message : Unoffered → String
  | .tokenComparison =>
    "SigmaConditionToken can only be compared against token type constants"
  | .abstractNode => "ConditionBase is no usable class"
  | .severalAggregationFields => "Field mappings in aggregations must be single valued"
  | .nodeType => "Node type not implemented for this backend"
  | .aggregation => "Aggregations not implemented for this backend"
  | .nearAggregation =>
    "The 'near' aggregation operator is not yet implemented for this backend"
  | .listNode title =>
    title.display ++ " : (generateListNode) Node type not implemented for this backend"
  | .aggregationFunction title name =>
    title.display ++ " : The '" ++ name ++
      "' aggregation operator is not yet implemented for this backend"
  | .outputType v => "Output type '" ++ v.display ++ "' not supported"
  | .keywords => "Backend does not support keywords"
  | .onlyCount => "Only COUNT aggregation function is implemented for this backend"

end Unoffered

/-- A value of a type that is refused with a message. -/
inductive TypeFault where
  | notTokenizable (type : String)
  | notAddable (type shown : String)
  | mappingTarget
  | defaultIndex
  | nodeType (type : String)
  | listValues
  | mapValue (type : String)
  | mapValueOrList (type : String)
  | fieldMapping
deriving Repr

namespace TypeFault

def message : TypeFault → String
  | .notTokenizable t => "SigmaConditionTokenizer constructor expects string or list, got " ++ t
  | .notAddable t s =>
    "+ operator expects SigmaConditionTokenizer or token type, got " ++ t ++ ": " ++ s
  | .mappingTarget => "Target type mismatch: wrong mapping type for this target"
  | .defaultIndex => "Default index must be string or list of strings"
  | .nodeType t => "Node type " ++ t ++ " was not expected in Sigma parse tree"
  | .listValues => "List values must be strings or numbers"
  | .mapValue t => "Backend does not support map values of type " ++ t
  | .mapValueOrList t => "Map values must be strings, numbers or lists, not " ++ t
  | .fieldMapping => "Field mapping must return string or list"

end TypeFault

/-- A value that is refused with a message. -/
inductive ValueFault where
  | onlyOneElement
  | startNode
  | severalSources (categories products services : List String)
  | mergeMethod
deriving Repr

def textSetLiteral (items : List String) : String :=
  if items.isEmpty then "set()"
  else "\x7b" ++ ", ".intercalate (items.map Text.quoted) ++ "\x7d"

namespace ValueFault

def message : ValueFault → String
  | .onlyOneElement => "Only one element allowed"
  | .startNode => "Parse tree must have exactly one start node!"
  | .severalSources c p s =>
    "Merged SigmaLogsourceConfigurations must have disjunct categories (" ++ textSetLiteral c ++
      "), products (" ++ textSetLiteral p ++ ") and services (" ++ textSetLiteral s ++ ")"
  | .mergeMethod => "Mergemethod must be 'and' or 'or'"

end ValueFault

/-- What went wrong. -/
inductive Fault where
  | parse (cause : ParseFault)
  | config (cause : ConfigFault)
  | filter (cause : FilterFault)
  | unsupported (what : Unsupported)
  | unoffered (what : Unoffered)
  | type (cause : TypeFault)
  | value (cause : ValueFault)
  | partialMatch (query : Option String)
  | fullMatch (query : Option String)
  | unknownTarget
  | notAnIndex
  /-- An operation met a value of a type that it does not take. -/
  | wrongType
  /-- A value lacks the part that is asked of it. -/
  | noPart
  | noKey
  | noItem
  /-- A text is no number, or an item to take away is not there. -/
  | noValue
  /-- An internal condition does not hold. -/
  | broken
  /-- A name stands for nothing. -/
  | noName
  /-- A name is used before it stands for something. -/
  | unset
  | noFile
  /-- A file stands where a directory is wanted. -/
  | notDirectory
  /-- A file holds no document. -/
  | malformed
  /-- A tool cannot be run. -/
  | toolFailed
  /-- The work would never end. -/
  | endless
deriving Repr

namespace Fault

/-- The message, for a fault that has one. -/
def message? : Fault → Option String
  | .parse c => some c.message
  | .config c => some c.message
  | .filter c => some c.message
  | .unsupported w => some w.message
  | .unoffered w => some w.message
  | .type c => some c.message
  | .value c => some c.message
  | .partialMatch q => some (q.getD "None")
  | .fullMatch q => some (q.getD "None")
  | .unknownTarget => some "Backend not found"
  | .notAnIndex => some "Expected index or slice"
  | _ => none

end Fault

/-- A computation over a state that may end in a fault. What it changed before the fault stays. -/
abbrev FaultM (σ : Type) := ExceptT Fault (StateM σ)

namespace FaultM

variable {σ τ α : Type}

/-- A result that does not touch the state. -/
def ofExcept (result : Except Fault α) : FaultM σ α :=
  ExceptT.mk (pure result)

/-- A computation over a part of the state. -/
def zoom (part : σ → τ) (replace : τ → σ → σ) (m : FaultM τ α) : FaultM σ α :=
  ExceptT.mk fun s =>
    let (result, t) := m.run.run (part s)
    (result, replace t s)

/-- The result of a computation that may fail; none if it does. -/
def attempt (m : FaultM σ α) : FaultM σ (Option α) :=
  ExceptT.mk fun s =>
    let (result, s) := m.run.run s
    (.ok result.toOption, s)

/-- The outcome of a computation and the state after it. -/
def start (m : FaultM σ α) (s : σ) : Except Fault α × σ :=
  m.run.run s

end FaultM

end SigmaQuery
