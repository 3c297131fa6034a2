import SigmaQuery.Target.TextQuery

/-!
# PowerShell

Pipelines over the event logs of Windows. The log that a rule names is not searched for: it becomes
the argument of the command, also for the rules that follow.
-/

namespace SigmaQuery

/-- A target for PowerShell. -/
structure PowerShell where
  query : TextQuery
  /-- The log that was named last. -/
  log : Value := .null
deriving Repr, Inhabited

namespace PowerShell

/-- The language of PowerShell conditions. -/
def dialect : Dialect :=
  { conjunction := some " -and "
    disjunction := some " -or "
    negation := some " -not "
    listSeparator := some "$_.message -match "
    group := some (.around "(" ")")
    list := some (.around "($_.message -match " ")")
    value := some (.around "\"" "\"")
    isNull := some (.around "-not " "=\"*\"")
    notNull := some (.around "" "=\"*\"")
    item := some [.text "$_.", .slot, .text " -eq ", .slot]
    listHandling := .apart }

def csvOption : OptionSpec :=
  { name := "csv"
    default := .bool false
    help := "Return the results in CSV format instead of Powershell objects" }

def escape : Text.EscapeRule :=
  { special := fun c => c == '"' || c == '+', backslash := true }

def operand (d : Dialect) (v : Value) : FaultM PowerShell String :=
  FaultM.ofExcept (d.valueText escape.text v)

def messageText (v : Value) : String :=
  "$_.message -match \"" ++ v.display ++ "\""

def matchText (d : Dialect) (v : Value) : FaultM PowerShell String := do
  return "$_.message -match " ++ (← operand d v)

/-- A field name and a text, with anything between them. -/
def fieldPattern (field : Value) (s : String) : Except Fault Value :=
  match field with
  | .text f => .ok (.text (f ++ ".*" ++ s))
  | _ => .error .wrongType

/-- A pattern in which any characters are a point and a star. -/
def starPattern (s : String) : String :=
  Text.replaceChar '*' ".*" s

/-- The field that holds the number of an event. -/
def isEventId (field : Value) : Bool :=
  field.same (.text "ID") || field.same (.text "EventID")

def isLog (field : Value) : Bool :=
  field.same (.text "LogName") || field.same (.text "source")

/-- A comparison of the number of an event. -/
def eventIdText (d : Dialect) (v : Value) : FaultM PowerShell String := do
  FaultM.ofExcept (Dialect.fill d.item ["ID", ← operand d v])

def single (d : Dialect) (value : Value → FaultM PowerShell String) (field v : Value) :
    FaultM PowerShell (Option String) := do
  if isLog field then
    modify fun t => { t with log := v }
    return none
  else if isEventId field then
    return some (← eventIdText d v)
  else match v with
    | .text s =>
      return some (← matchText d (← FaultM.ofExcept (fieldPattern field (starPattern s))))
    | .int n =>
      return some (← matchText d (← FaultM.ofExcept (fieldPattern field (toString n))))
    | _ =>
      let operand ← Renderer.operandText d value v
      return some (← FaultM.ofExcept (Dialect.fill d.item [field.display, operand]))

/-- One value of a list of a field. Only a value with a star is tied to the field. -/
def alternative (d : Dialect) (field v : Value) : FaultM PowerShell String :=
  if isEventId field then eventIdText d v
  else match v with
    | .text s =>
      if Text.hasStar s then do
        matchText d (← FaultM.ofExcept (fieldPattern field (starPattern s)))
      else matchText d v
    | _ => matchText d v

def itemList (d : Dialect) (field v : Value) : FaultM PowerShell (Option String) := do
  let vs ← FaultM.ofExcept v.elements
  let texts ← Renderer.valueTexts (alternative d field) vs
  return some ("(" ++ " -or ".intercalate texts ++ ")")

def item (d : Dialect) (field v : Value) : FaultM PowerShell (Option String) :=
  if d.takesValue v then single d (fun v => pure (messageText v)) field v
  else match v with
    | .list vs => itemList d field (.list vs)
    | _ => throw (.type (.mapValue v.typeText))

def renderer (d : Dialect) : Renderer PowerShell :=
  let value := fun v => pure (messageText v)
  { Renderer.standard d escape.text with
    value
    list := Renderer.listText d value
    item := item d
    itemList := itemList d }

/-- A comparison sign as an operator of the language. -/
def operator? (sign : Value) : Option String :=
  if sign.same (.text "<") then some "-lt"
  else if sign.same (.text ">") then some "-gt"
  else if sign.same (.text "=") then some "-eq"
  else none

/-- The comparison of a count with the threshold. -/
def countTest (a : Aggregation) : String :=
  "$_.count " ++ textOrNone (operator? (optionValue a.operator)) ++ " " ++ textOrNone a.threshold

/-- The steps that count the events of each group. -/
def groupCount (field : String) (a : Aggregation) : String :=
  " | group-object " ++ field ++ " | where \x7b " ++ countTest a ++
    " \x7d | select name,count | sort -desc"

/-- The steps of an aggregation. Only counting is offered. -/
def aggregate (a : Aggregation) : Except Fault String :=
  if a.function != some .count then .error (.unoffered .onlyCount)
  else match a.group, a.field with
    | none, field => .ok (groupCount (field.getD "") a)
    | some g, none => .ok (groupCount g a)
    | some g, some f =>
      .ok (" | select " ++ g ++ ", " ++ f ++ " | group " ++ g ++
        " | foreach \x7b [PSCustomObject]@\x7b'" ++ g ++ "'=$_.name;'Count'=($_.group." ++ f ++
        " | sort -u).count\x7d \x7d  | sort count -desc | where \x7b " ++ countTest a ++ " \x7d")

def queryText (c : Config) (p : ParsedCondition) : GenerateM PowerShell (Option String) := do
  let text ← GenerateM.target ((renderer (← get).target.query.dialect).render p.search)
  let _ ← GenerateM.logSource c
  let finish ← match p.aggregation with
    | some a => do pure (" \x7d " ++ (← FaultM.ofExcept (aggregate a)))
    | none => pure " \x7d | select TimeCreated,Id,RecordId,ProcessId,MachineName,Message"
  match text with
  | some t => return some (t ++ finish)
  | none => throw .wrongType

def command (log : Value) : String :=
  if log.truthy then "Get-WinEvent -LogName " ++ log.display ++ " | where \x7b"
  else "Get-WinEvent | where \x7b"

def generate (c : Config) : GenerateM PowerShell (Option String) := do
  let o := (← get).target.query.options
  GenerateM.first (queryText c)
    (fun _ => do return some (command (← get).target.log))
    (fun _ => pure (some
      (if (o.get "csv").truthy then " | ConvertTo-CSV -NoTypeInformation" else "")))

end PowerShell

end SigmaQuery
