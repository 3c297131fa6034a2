import SigmaQuery.Target.TextQuery

/-!
# Allowed fields

Some targets know only the fields that a configuration maps to.
-/

namespace SigmaQuery

/-- The targets of the field mappings of a configuration. -/
def mappingTargets : List (Key × Option FieldMapping) → Except Fault (List Value)
  | [] => .ok []
  | (_, none) :: _ => .error .noPart
  | (_, some (.multi targets)) :: rest => (mappingTargets rest).map (targets ++ ·)
  | (_, some m) :: rest => (mappingTargets rest).map (m.target :: ·)

/-- The fields that a target knows: some of its own and those that the configuration maps to. A
conditional mapping has no such fields and is a fault. -/
def allowedFields (own : List String) (c : Config) : Except Fault (List Value) :=
  match mappingTargets c.fieldMappings with
  | .error e => .error e
  | .ok targets =>
    if targets.all Value.hashable then .ok (own.map .text ++ targets) else .error .wrongType

end SigmaQuery
