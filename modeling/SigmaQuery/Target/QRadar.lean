import SigmaQuery.Target.TextQuery

/-!
# QRadar

Searches in the Ariel query language. A value without a field is searched for in the whole payload.
-/

namespace SigmaQuery.QRadar

def dialect : Dialect :=
  { conjunction := some " and "
    disjunction := some " or "
    negation := some "not "
    listSeparator := some " "
    group := some (.around "(" ")")
    list := some (.around "" "")
    value := some (.around "'" "'")
    isNull := some (.around "" " is null")
    notNull := some (.around "not (" " is null)")
    item := some (.between "=")
    listHandling := .apart }

def eventTable : String := "events"

/-- A field name; a name with a blank is quoted. A list and a map are searched for a blank as well. -/
def fieldName : Value → Except Fault Value
  | .text s => .ok (.text (if s.toList.contains ' ' then "\"" ++ s ++ "\"" else s))
  | .list vs =>
    .ok (if (Value.text " ").memberOf vs then .text ("\"" ++ (Value.list vs).display ++ "\"")
      else .list vs)
  | .map es =>
    .ok (match lookup (.text " ") es with
      | some _ => .text ("\"" ++ (Value.map es).display ++ "\"")
      | none => .map es)
  | _ => .error .wrongType

def fieldText (field : Value) : Except Fault String :=
  (fieldName field).map Value.display

def operand (d : Dialect) (v : Value) : FaultM TextQuery String :=
  FaultM.ofExcept (d.valueText Text.plainQuoteEscape.text v)

def payloadText (v : Value) : String :=
  "UTF8(payload) ilike '%" ++ Text.plainQuoteEscape.text v.display ++ "%'"

/-- A pattern in which any characters are a percent sign. -/
def likePattern (s : String) : Value :=
  .text (Text.replaceChar '*' "%" s)

def likeText (d : Dialect) (field : Value) (s : String) : FaultM TextQuery String := do
  let name ← FaultM.ofExcept (fieldText field)
  return name ++ " ilike " ++ (← operand d (likePattern s))

def single (d : Dialect) (value : Value → FaultM TextQuery String) (field v : Value) :
    FaultM TextQuery (Option String) := do
  match v with
  | .list vs =>
    let name ← FaultM.ofExcept (fieldText field)
    let listed ← Renderer.operandText d value (.list vs)
    return some (← FaultM.ofExcept (Dialect.fill d.item [name, listed]))
  | .text s =>
    if Text.hasStar s then return some (← likeText d field s)
    else
      let name ← FaultM.ofExcept (fieldText field)
      return some (← FaultM.ofExcept (Dialect.fill d.item [name, ← operand d v]))
  | _ =>
    let name ← FaultM.ofExcept (fieldText field)
    return some (← FaultM.ofExcept (Dialect.fill d.item [name, ← operand d v]))

def alternative (d : Dialect) (field : Value) (v : Value) : FaultM TextQuery String :=
  match v with
  | .text s => if Text.hasStar s then likeText d field s else equal
  | _ => equal
where
  /-- The comparison with the value itself. -/
  equal : FaultM TextQuery String := do
    let name ← FaultM.ofExcept (fieldText field)
    return name ++ " = " ++ (← operand d v)

def itemList (d : Dialect) (field v : Value) : FaultM TextQuery (Option String) := do
  let vs ← FaultM.ofExcept v.elements
  let texts ← Renderer.valueTexts (alternative d field) vs
  return some ("(" ++ " or ".intercalate texts ++ ")")

def item (d : Dialect) (field v : Value) : FaultM TextQuery (Option String) :=
  if d.takesValue v then single d (fun v => pure (payloadText v)) field v
  else match v with
    | .list vs => itemList d field (.list vs)
    | _ => throw (.type (.mapValue v.typeText))

def renderer (d : Dialect) : Renderer TextQuery :=
  let value := fun v => pure (payloadText v)
  { Renderer.standard d id with
    value
    list := Renderer.listText d value
    item := item d
    itemList := itemList d }

/-- What stands before and after the search of an aggregation. -/
def aggregate (a : Aggregation) : Except Fault (String × String) :=
  if a.function = some .near then .error (.unoffered .nearAggregation)
  else
    let select := "SELECT " ++ textOrNone a.functionText ++ "(" ++ textOrNone a.field ++
      ") as agg_val from " ++ eventTable ++ " where"
    let having := fun (group : String) => " group by " ++ group ++ " having agg_val " ++
      textOrNone a.operator ++ " " ++ textOrNone a.threshold
    match a.group with
    | none => .ok (select, having (textOrNone a.field))
    | some g => .ok (" " ++ select ++ " ", having g)

/-- The table of a log source: flows if one of its indices is for flows. -/
def table (index : List String) : String :=
  if index.any fun i => 1 < (i.splitOn "flow").length then "flows" else eventTable

def query (c : Config) (p : ParsedCondition) : GenerateM TextQuery (Option String) := do
  let text ← TextQuery.search renderer p.search
  let source ← GenerateM.logSource c
  let (start, finish) ← match p.aggregation with
    | some a => FaultM.ofExcept (aggregate a)
    | none => pure ("SELECT UTF8(payload) as search_payload from " ++ table source.index ++
        " where ", "")
  match text with
  | some t => return some (start ++ t ++ finish)
  | none => throw .wrongType

def generate (c : Config) : GenerateM TextQuery (Option String) :=
  TextQuery.commented (query c)

end SigmaQuery.QRadar
