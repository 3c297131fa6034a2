import SigmaQuery.Config.FieldMapping

/-!
# Log sources

A log source of a configuration names the category, the product and the service that it stands for.
It says in which indices its events are kept and which conditions they meet. Several log sources can
be merged into one.
-/

namespace SigmaQuery

structure LogSource where
  name : Value := .null
  category : Option String := none
  product : Option String := none
  service : Option String := none
  index : List String := []
  indexField : Option String := none
  conditions : Option Cond := none
deriving Repr, Inhabited

def optionValue : Option String → Value
  | some s => .text s
  | none => .null

namespace LogSource

/-! ## Reading -/

/-- The attribute has a value that is no text. -/
def badAttribute (k : String) (entries : Entries) : Bool :=
  match lookup (.text k) entries with
  | some (.text _) => false
  | some _ => true
  | none => false

def textAt (k : String) (entries : Entries) : Option String :=
  (lookup (.text k) entries).bind Value.text?

def readIndex (entries : Entries) : Except Fault (List String) :=
  match lookup (.text "index") entries with
  | none => .ok []
  | some (.text s) => .ok [s]
  | some (.list items) =>
    let texts := items.filterMap Value.text?
    if texts.length = items.length then .ok texts else .error (.config .indexPatternNotText)
  | some _ => .error (.config .indexNotTextOrList)

/-- The conditions of the log source with number `origin`. -/
def readConditions (origin : Option Nat) (entries : Entries) : Except Fault (Option Cond) :=
  match lookup (.text "conditions") entries with
  | none => .ok none
  | some (.map conditions) =>
    .ok (some (.all origin (conditions.map fun (k, v) => .item k.toValue v)))
  | some _ => .error (.config .conditionsNotMap)

def ofEntries (origin : Option Nat) (name : Value) (indexField : Option String)
    (entries : Entries) : Except Fault LogSource :=
  if badAttribute "category" entries || badAttribute "product" entries ||
      badAttribute "service" entries then
    .error (.config .attributeNotText)
  else
    let category := textAt "category" entries
    let product := textAt "product" entries
    let service := textAt "service" entries
    if category.isNone && product.isNone && service.isNone then
      .error (.config .matchesNothing)
    else match readIndex entries with
      | .error e => .error e
      | .ok index => (readConditions origin entries).map fun conditions =>
        { name, category, product, service, index, indexField, conditions }

/-! ## Merging -/

/-- The index patterns to use where no log source gives one. -/
def defaultPatterns : Value → Except Fault (List String)
  | .null => .ok []
  | .text s => .ok [s]
  | .list items =>
    let texts := items.filterMap Value.text?
    if texts.length = items.length then .ok texts else .error (.type .defaultIndex)
  | _ => .error (.type .defaultIndex)

/-- The indices of several log sources, each once and sorted, or else the default. -/
def mergedIndex (sources : List LogSource) (defaultIndex : Value) :
    Except Fault (List String) :=
  match sortedSet (sources.flatMap LogSource.index) with
  | [] => defaultPatterns defaultIndex
  | index => .ok index

/-- The way to join conditions that a merge method names. -/
def mergeJunction : Value → Except Fault Junction
  | .text "and" => .ok .conj
  | .text "or" => .ok .disj
  | _ => .error (.value .mergeMethod)

/-- Merges log sources. They may differ in what they name only where one of them names nothing. -/
def merge (sources : List LogSource) (defaultIndex : Value) (name : Value) (method : Value) :
    Except Fault LogSource :=
  let categories := sortedSet (sources.filterMap LogSource.category)
  let products := sortedSet (sources.filterMap LogSource.product)
  let services := sortedSet (sources.filterMap LogSource.service)
  if 1 < categories.length || 1 < products.length || 1 < services.length then
    .error (.value (.severalSources categories products services))
  else match mergedIndex sources defaultIndex with
    | .error e => .error e
    | .ok index => match mergeJunction method with
      | .error e => .error e
      | .ok junction =>
        let conditions := sources.filterMap LogSource.conditions
        .ok { name
              category := categories.head?
              product := products.head?
              service := services.head?
              index
              indexField := (sources.filterMap LogSource.indexField).head?
              conditions := if conditions.isEmpty then none
                else some (junction.build none conditions) }

/-- The log source that a configuration describes. Null describes an empty one, and a list without
items the merge of nothing. -/
def ofValue (origin : Option Nat) (v defaultIndex name method : Value)
    (indexField : Option String) : Except Fault LogSource :=
  match v with
  | .null => .ok { name, indexField }
  | .list [] => merge [] defaultIndex name method
  | .map entries => ofEntries origin name indexField entries
  | _ => .error (.config .logSourceNotMap)

/-! ## Use -/

/-- One attribute fits what is searched for: `none` if the log source leaves it open. -/
def fits (searched : Value) : Option String → Option Bool
  | none => none
  | some own => some (searched.same (.text own))

/-- Whether the log source is the one that is searched for. Without an attribute of its own it gives
no answer. -/
def matches? (s : LogSource) (category product service : Value) : Option Bool :=
  let tests := [fits category s.category, fits product s.product, fits service s.service]
  if tests.contains (some false) then some false
  else if tests.contains (some true) then some true
  else none

/-- The condition that the event is in one of the indices, where indices are told apart by a
field. -/
def indexCondition (s : LogSource) : Option Cond :=
  match s.indexField with
  | none => none
  | some "" => none
  | some field => some (.any (s.index.map fun i => .item (.text field) (.text i)))

def display (s : LogSource) : String :=
  "[ LogSourceConfiguration: " ++ (optionValue s.category).display ++ " " ++
    (optionValue s.product).display ++ " " ++ (optionValue s.service).display ++ " indices: " ++
    textListLiteral s.index ++ " ]"

end LogSource

end SigmaQuery
