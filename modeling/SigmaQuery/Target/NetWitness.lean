import SigmaQuery.Target.TextQuery

/-!
# NetWitness

Saved searches for NetWitness. A value with a star inside is searched for by a regular expression, one
with a star at an end by its text alone.
-/

namespace SigmaQuery.NetWitness

def dialect : Dialect :=
  { conjunction := some " && "
    disjunction := some " || "
    negation := some "NOT"
    listSeparator := some ", "
    group := some (.around "(" ")")
    list := some (.around "(" ")")
    value := some (.around "'" "'")
    isNull := some (.around "" " exists")
    notNull := some (.around "" " exists")
    item := some [.text "(", .slot, .text "=", .slot, .text ")"]
    listHandling := .apart }

def valueText (d : Dialect) (v : Value) : FaultM TextQuery String :=
  FaultM.ofExcept (d.valueText id v)

def comparison (field : Value) (operator : String) (operand : String) : String :=
  "(" ++ field.display ++ " " ++ operator ++ " " ++ operand ++ ")"

def single (d : Dialect) (field v : Value) : FaultM TextQuery (Option String) := do
  match v with
  | .text s =>
    if Text.hasInnerStar s then
      return some (comparison field "regex" (← valueText d (.text (Text.regexOf s))))
    else if Text.hasStar s then
      return some (comparison field "contains" (← valueText d (.text (Text.withoutStars s))))
    else
      return some (← FaultM.ofExcept
        (Dialect.fill d.item [field.display, ← valueText d (.text s)]))
  | _ =>
    let operand ← Renderer.operandText d (valueText d) v
    return some (← FaultM.ofExcept (Dialect.fill d.item [field.display, operand]))

/-- The ways to search for a value of a list. -/
inductive Way where
  | equal | contains | regex
deriving DecidableEq, Repr

/-- The way to search for a value of a list, and the value to search for. -/
def wayOf : Value → Way × Value
  | .text s =>
    if Text.hasInnerStar s then (.regex, .text (Text.regexOf s))
    else if Text.endsWithStar s || Text.startsWithStar s then
      (.contains, .text (Text.withoutStars (Text.regexEscape.text s)))
    else (.equal, .text s)
  | v => (.equal, v)

/-- The values of a list that are searched for in one way, as texts. -/
def inWay (d : Dialect) (w : Way) (vs : List Value) : FaultM TextQuery (List String) :=
  Renderer.valueTexts (valueText d) (((vs.map wayOf).filter fun x => x.1 = w).map (·.2))

/-- A field with the values that are searched for in one way, if there are any. -/
def wayText (field : Value) (operator : String) : List String → Option String
  | [] => none
  | texts => some (field.display ++ " " ++ operator ++ " " ++ ", ".intercalate texts)

def itemList (d : Dialect) (field v : Value) : FaultM TextQuery (Option String) := do
  let vs ← FaultM.ofExcept v.elements
  let equal ← inWay d .equal vs
  let contains ← inWay d .contains vs
  let regex ← inWay d .regex vs
  let parts := [wayText field "=" equal, wayText field "contains" contains,
    wayText field "regex" regex].filterMap id
  return some ("(" ++ " || ".intercalate parts ++ ")")

def item (d : Dialect) (field v : Value) : FaultM TextQuery (Option String) :=
  if d.takesValue v then single d field v
  else match v with
    | .list vs => itemList d field (.list vs)
    | _ => throw (.type (.mapValue v.typeText))

/-- The renderer of the language. Values are not escaped. -/
def renderer (d : Dialect) : Renderer TextQuery :=
  { Renderer.standard d id with
    value := valueText d
    list := Renderer.listText d (valueText d)
    item := item d
    itemList := itemList d }

/-- The definition names allow a search: none is a number, and none begins like a keyword list. -/
def checkNames : Entries → Except Fault Unit
  | [] => .ok ()
  | (.num _, _) :: _ => .error .noPart
  | (.text name, _) :: rest =>
    if "keyword".toList.isPrefixOf name.toList then .error (.unoffered .keywords)
    else checkNames rest

def generate : GenerateM TextQuery (Option String) := do
  match ← GenerateM.entry "detection" with
  | .map detection =>
    FaultM.ofExcept (checkNames detection)
    match ← GenerateM.conditions with
    | [] => return none
    | p :: _ => TextQuery.search renderer p.search
  | _ => throw .noPart

end SigmaQuery.NetWitness
