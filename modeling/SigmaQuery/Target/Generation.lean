import SigmaQuery.Rule.Basic
import SigmaQuery.Target.Options
import SigmaQuery.Target.Renderer

/-!
# Generation

A target makes queries from rules, one rule after another. It keeps a state from rule to rule, and it
may fill in entries that the rule's document lacks. This module holds the steps that targets share.
-/

namespace SigmaQuery

/-- A target at work on a rule. -/
structure Work (σ : Type) where
  target : σ
  rule : Rule

/-- A computation of a target with state `σ` on a rule. -/
abbrev GenerateM (σ : Type) := FaultM (Work σ)

namespace GenerateM

variable {σ τ α : Type}

/-- A computation on the state of the target alone. -/
def target (m : FaultM σ α) : GenerateM σ α :=
  FaultM.zoom Work.target (fun t w => { w with target := t }) m

/-- A computation of a target that is a part of another. -/
def within (part : σ → τ) (replace : τ → σ → σ) (m : GenerateM τ α) : GenerateM σ α :=
  FaultM.zoom (fun w => ⟨part w.target, w.rule⟩)
    (fun v w => ⟨replace v.target w.target, v.rule⟩) m

/-! ## The document -/

def entries : GenerateM σ Entries := do
  match (← get).rule.document with
  | .map es => return es
  | _ => throw .wrongType

def entry (k : String) : GenerateM σ Value := do
  match lookup (.text k) (← entries) with
  | some v => return v
  | none => throw .noKey

def setEntries (es : Entries) : GenerateM σ Unit :=
  modify fun w => { w with rule := { w.rule with document := .map es } }

/-- The value of an entry, which is put into the document if it is not there. -/
def entryOr (k : String) (default : Value) : GenerateM σ Value := do
  let es := putDefault (.text k) default (← entries)
  setEntries es
  return (lookup (.text k) es).getD default

def detectionEntryOr (k : String) (default : Value) : GenerateM σ Value := do
  let es ← entries
  match lookup (.text "detection") es with
  | none => throw .noKey
  | some (.map detection) =>
    let detection := putDefault (.text k) default detection
    setEntries (put (.text "detection") (.map detection) es)
    return (lookup (.text k) detection).getD default
  | some _ => throw .noPart

/-- The log source of the rule, which must have one. -/
def logSource (c : Config) : GenerateM σ LogSource := do
  match (← get).rule.logSource c with
  | .error e => throw e
  | .ok none => throw .noPart
  | .ok (some s) => return s

def conditions : GenerateM σ (List ParsedCondition) := do
  return (← get).rule.conditions

/-! ## Fields -/

/-- The names that a list of fields is mapped to. -/
def mappedFields (c : Config) : List Value → Except Fault (List Value)
  | [] => .ok []
  | field :: rest => match c.fieldName field with
    | .error e => .error e
    | .ok (.text s) => (mappedFields c rest).map (.text s :: ·)
    | .ok (.list names) => (mappedFields c rest).map (names ++ ·)
    | .ok _ => .error (.type .fieldMapping)

/-- The fields that the rule wants to be shown; none if it says nothing about them. -/
def shownFields : GenerateM σ (Option (List Value)) := do
  match lookup (.text "fields") (← entries) with
  | none => return none
  | some v => return some (← FaultM.ofExcept v.elements)

/-! ## Queries -/

/-- The query of a condition: the search, followed by the aggregation. -/
def query (search : Cond → GenerateM σ (Option String))
    (aggregate : Aggregation → GenerateM σ String) (p : ParsedCondition) :
    GenerateM σ (Option String) := do
  let text ← search p.search
  match p.aggregation with
  | none => return text
  | some a =>
    let suffix ← aggregate a
    match text with
    | some t => return some (t ++ suffix)
    | none => throw .wrongType

/-- The aggregation of a target that has none. -/
def noAggregation (_ : Aggregation) : GenerateM σ String :=
  throw (.unoffered .aggregation)

/-- The query of the first condition with a text before and after it. -/
def first (query before after : ParsedCondition → GenerateM σ (Option String)) :
    GenerateM σ (Option String) := do
  match ← conditions with
  | [] => return none
  | p :: _ =>
    let q ← query p
    let b ← before p
    let a ← after p
    return some (b.getD "" ++ q.getD "" ++ a.getD "")

/-- A comment with the title of the rule, if the option asks for it. -/
def titleComment (o : Options) : GenerateM σ (Option String) := do
  if (o.get "rulecomment").truthy then
    match lookup (.text "title") (← entries) with
    | some title => return some ("# " ++ title.display ++ "\n")
    | none => return some ""
  else return none

/-- The end of a line after a query with a comment. -/
def commentEnd (o : Options) : Option String :=
  if (o.get "rulecomment").truthy then some "\n" else none

end GenerateM

/-! ## Names -/

/-- The name that a title gives: dashes for blanks, and no brackets. -/
def nameOfTitle (title : String) : String :=
  String.ofList (title.toList.filterMap fun c =>
    if c == ' ' then some '-' else if c == '(' || c == ')' then none else some c)

def numbered (name : String) (n : Nat) : String :=
  name ++ "-" ++ toString n

/-- A name that is not in use: the name itself, or the name with the smallest number from two on. -/
def freshName (used : List String) (name : String) : String :=
  if used.contains name then
    (((List.range (used.length + 1)).map fun i => numbered name (i + 2)).find?
      fun n => !used.contains n).getD name
  else name

/-- The name of a rule with a title, and the names in use afterwards. -/
def takeName (used : List String) (title : Value) : Except Fault (String × List String) :=
  match title with
  | .text t =>
    let name := freshName used (nameOfTitle t)
    .ok (name, used ++ [name])
  | _ => .error .noPart

/-- A name for the rule at hand, taken from the names that a target has in use. -/
def GenerateM.ruleName {σ : Type} (used : σ → List String) (replace : List String → σ → σ) :
    GenerateM σ String := do
  let title ← GenerateM.entry "title"
  let (name, names) ← FaultM.ofExcept (takeName (used (← get).target) title)
  modify fun w => { w with target := replace names w.target }
  return name

/-! ## Records -/

def record (fields : List (String × Value)) : Value :=
  .map (fields.map fun (k, v) => (.text k, v))

/-- The text that stands for a missing one. -/
def textOrNone (s : Option String) : String :=
  s.getD "None"

end SigmaQuery
