import SigmaQuery.Config.Basic

/-!
# Definitions

The detection part of a rule names definitions. A definition is a map of fields, all of which must
have their values, or a list of values and maps, one of which must hold. This module turns a
definition into a condition tree, with its fields mapped as the configuration says.
-/

namespace SigmaQuery

/-- The definitions of a rule and the values that they give to each field. -/
structure Detection where
  definitions : Entries := []
  values : FieldValues := []
deriving Repr, Inhabited

/-! ## The values of a rule -/

def addValue (field : Key) (value : Value) (values : FieldValues) : FieldValues :=
  let known := (lookup field values).getD []
  let shown := value.display
  put field (if known.contains shown then known else known ++ [shown]) values

mutual

/-- Adds the values that a definition gives to fields. -/
def addValues (values : FieldValues) : Value → FieldValues
  | .list items => addItemValues values items
  | .map entries => entries.foldl (fun vs (k, v) => addValue k v vs) values
  | _ => values

def addItemValues (values : FieldValues) : List Value → FieldValues
  | [] => values
  | v :: rest => addItemValues (addValues values v) rest

end

/-- The definitions of a detection part: all its entries but the condition. -/
def Detection.ofEntries (entries : Entries) : Detection :=
  let definitions := remove (.text "condition") entries
  { definitions, values := definitions.foldl (fun vs (_, v) => addValues vs v) [] }

/-! ## Definitions as conditions -/

/-- The tests that a field without a value is empty, one for each field it is mapped to. -/
def nullTests (c : Config) (field : Key) : Except Fault (List Cond) :=
  match c.fieldName field.toValue with
  | .error e => .error e
  | .ok (.text s) => .ok [.nullTest (.value (.text s))]
  | .ok (.list fields) => .ok (fields.map fun f => .nullTest (.ofValue f))
  | .ok _ => .error .wrongType

def fieldConditions (values : FieldValues) : Entries → ConfigM (List Cond)
  | [] => pure []
  | (k, .null) :: rest => do
    let tests ← FaultM.ofExcept (nullTests (← get) k)
    return tests ++ (← fieldConditions values rest)
  | (k, v) :: rest => do
    let test ← Config.resolve k.toValue v values
    return test :: (← fieldConditions values rest)

mutual

/-- The condition of a definition. A list is joined as told, a map is a conjunction. -/
def parseDefinition (values : FieldValues) (join : Junction) : Value → ConfigM Cond
  | .list items => do return join.build none (← parseItems values items)
  | .map entries => do return .all none (← fieldConditions values entries)
  | v => throw (.parse (.notADefinition v))

/-- The conditions of the items of a list. A list inside a list is a disjunction. -/
def parseItems (values : FieldValues) : List Value → ConfigM (List Cond)
  | [] => pure []
  | .text s :: rest => do return .value (.text s) :: (← parseItems values rest)
  | .int n :: rest => do return .value (.int n) :: (← parseItems values rest)
  | .list items :: rest => do
    let c ← parseDefinition values .disj (.list items)
    return c :: (← parseItems values rest)
  | .map entries :: rest => do
    let c ← parseDefinition values .disj (.map entries)
    return c :: (← parseItems values rest)
  | _ :: _ => throw (.parse .badDefinitionItem)

end

namespace Detection

def parseNamed (d : Detection) (join : Junction) (name : String) : ConfigM Cond :=
  match lookup (.text name) d.definitions with
  | none => throw (.parse (.unknownDefinition name))
  | some definition => parseDefinition d.values join definition

/-- The conditions of several definitions, each in brackets. -/
def parseEach (d : Detection) : List Value → ConfigM (List Cond)
  | [] => pure []
  | v :: rest => do
    let c ← parseDefinition d.values .disj v
    return .group c :: (← parseEach d rest)

end Detection

end SigmaQuery
