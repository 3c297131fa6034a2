import SigmaQuery.Condition.Tree

/-!
# Field mappings

A configuration maps the field names of rules to those of the target. A mapping has one target,
several targets, or targets that depend on the values of other fields of the rule. A conditional
mapping may have default targets for rules that meet none of its conditions.

A single default target is used up: once a search has taken it, no default target is left.
-/

namespace SigmaQuery

/-- The values that the definitions of a rule give to each field, as texts. -/
abbrev FieldValues := List (Key × List String)

/-- The targets that hold where a field of the rule has a value. -/
structure MappingCase where
  field : String
  value : String
  targets : List Value
deriving Repr

/-- Where the values of a rule's field are found in the target. -/
inductive FieldMapping where
  | simple (target : String)
  | multi (targets : List Value)
  | conditional (document : Entries) (cases : List MappingCase) (default : Option (List Value))
deriving Repr

/-- Texts sorted by code point, each once. -/
def sortedSet (items : List String) : List String :=
  (items.mergeSort fun a b => !(b < a)).eraseDups

namespace FieldMapping

/-- Adds the targets of a condition. Targets of a type that is no target add nothing. -/
def addCase (field value : String) (target : Value) (cases : List MappingCase) :
    List MappingCase :=
  let targets := match target with
    | .text s => [.text s]
    | .list items => items
    | _ => []
  if cases.any fun c => c.field == field && c.value == value then
    cases.map fun c =>
      if c.field == field && c.value == value then { c with targets := c.targets ++ targets } else c
  else cases ++ [⟨field, value, targets⟩]

/-- Reads the entries of a conditional mapping: conditions of the form `field=value`, and the
default. -/
def readCases (cases : List MappingCase) (default : Option (List Value)) :
    Entries → Except Fault (List MappingCase × Option (List Value))
  | [] => .ok (cases, default)
  | (.num _, _) :: _ => .error .noPart
  | (.text condition, target) :: rest => match condition.splitOn "=" with
    | [field, value] => readCases (addCase field value target cases) default rest
    | _ =>
      if condition = "default" then match target with
        | .text s => readCases cases (some [.text s]) rest
        | .list items => readCases cases (some items) rest
        | _ => .error (.config .badDefault)
      else .error (.config .notACondition)

/-- The mapping that a configuration gives for a field. A target of another type is no mapping. -/
def ofTarget (source : Value) : Value → Except Fault (Option FieldMapping)
  | .null => match source with
    | .text s => .ok (some (.simple s))
    | _ => .error (.type .mappingTarget)
  | .text s => .ok (some (.simple s))
  | .list targets => .ok (some (.multi targets))
  | .map entries => (readCases [] none entries).map fun (cases, default) =>
    some (.conditional entries cases default)
  | _ => .ok none

/-- The targets of the conditions that the rule's values meet. -/
def metTargets (cases : List MappingCase) (values : FieldValues) : List Value :=
  (cases.filter fun c => match lookup (.text c.field) values with
    | some vs => vs.contains c.value
    | none => false).flatMap MappingCase.targets

/-- A set of targets in its order: texts by code point, each once. -/
def targetSet (targets : List Value) : List Value :=
  let texts := targets.filterMap Value.text?
  if texts.length = targets.length then (sortedSet texts).map .text
  else targets.foldl (fun seen t => if t.memberOf seen then seen else seen ++ [t]) []

def anyTarget (targets : List Value) (value : Value) : Cond :=
  .any (targets.map fun t => .item t value)

/-- The search for a value in the mapped field, and the mapping as it is afterwards. -/
def resolve (m : FieldMapping) (field : Value) (value : Value) (values : FieldValues) :
    Except Fault (Cond × FieldMapping) :=
  match m with
  | .simple target => .ok (.item (.text target) value, m)
  | .multi targets => .ok (anyTarget targets value, m)
  | .conditional document cases default =>
    let found := metTargets cases values
    if !found.all Value.hashable then .error .wrongType
    else match targetSet found with
      | [] => match default with
        | none => .ok (.item field value, m)
        | some [] => .ok (.item field value, m)
        | some [target] => .ok (.item target value, .conditional document cases (some []))
        | some targets => .ok (anyTarget targets value, m)
      | [target] => .ok (.item target value, m)
      | targets => .ok (anyTarget targets value, m)

/-- The name or the names of the mapped field, whatever the rule's values are. -/
def fieldName (m : FieldMapping) (field : Value) : Value :=
  match m with
  | .simple target => .text target
  | .multi targets => .list targets
  | .conditional _ _ (some default) => .list default
  | .conditional _ _ none => field

/-- The targets as the configuration gives them. A default that is a list shows what is left of
it. -/
def target : FieldMapping → Value
  | .simple target => .text target
  | .multi targets => .list targets
  | .conditional document _ default =>
    .map (document.map fun (k, v) => match k, v, default with
      | .text "default", .list _, some left => (k, .list left)
      | _, _, _ => (k, v))

def isConditional : FieldMapping → Bool
  | .conditional _ _ _ => true
  | _ => false

end FieldMapping

end SigmaQuery
