import SigmaQuery.Target.TextQuery

/-!
# Splunk

Searches in the Splunk language, and dashboards with one panel for each condition.
-/

namespace SigmaQuery

namespace Splunk

def dialect : Dialect :=
  { conjunction := some " "
    disjunction := some " OR "
    negation := some "NOT "
    listSeparator := some " "
    group := some (.around "(" ")")
    list := some (.around "(" ")")
    value := some (.around "\"" "\"")
    isNull := some (.around "NOT " "=\"*\"")
    notNull := some (.around "" "=\"*\"")
    item := some (.between "=")
    itemList := some (.between " IN ")
    listHandling := .apart }

/-- The field with one of several values, as a disjunction in brackets. -/
def alternatives {σ : Type} (value : Value → FaultM σ String) (field : Value)
    (vs : List Value) : FaultM σ (Option String) := do
  let texts ← Renderer.valueTexts value vs
  return some ("(" ++ " OR ".intercalate (texts.map fun t => field.display ++ "=" ++ t) ++ ")")

/-- A list of values, of which each must be a text or a number where `strict` is set. -/
def itemList {σ : Type} (strict : Bool) (value : Value → FaultM σ String) (field v : Value) :
    FaultM σ (Option String) := do
  let vs ← FaultM.ofExcept v.elements
  if strict && !vs.all Value.isPlain then throw (.type .listValues)
  else alternatives value field vs

def renderer {σ : Type} (strict : Bool) (d : Dialect) : Renderer σ :=
  let usual := Renderer.standard d Text.quoteEscape.text
  { usual with
    item := Renderer.itemText d usual.value (itemList strict usual.value)
    itemList := itemList strict usual.value }

/-- The function of an aggregation over groups: different values are counted. -/
def groupedFunction (a : Aggregation) : Aggregation :=
  if a.group.isSome && a.functionText == some "count" then
    { a with functionText := some "dc" }
  else a

/-- Replaces the aggregation of the first condition. -/
def setAggregation {σ : Type} (a : Aggregation) : GenerateM σ Unit :=
  modify fun w => { w with rule := { w.rule with
    conditions := match w.rule.conditions with
      | [] => []
      | p :: rest => { p with aggregation := some a } :: rest } }

/-- The aggregation of the first condition. -/
def aggregate (a : Aggregation) : GenerateM TextQuery String :=
  if a.function = some .near then throw (.unoffered .nearAggregation)
  else do
    setAggregation (groupedFunction a)
    pipelineAggregation "stats " "search" (groupedFunction a)

/-- The columns that the rule wants to be shown. -/
inductive Columns where
  | unsaid
  | none
  | table (names : List Value)

def columns (c : Config) : GenerateM TextQuery Columns := do
  match ← GenerateM.shownFields with
  | Option.none => return .unsaid
  | some [] => return .none
  | some fields => return .table (← FaultM.ofExcept (GenerateM.mappedFields c fields))

/-- The end of a query that shows columns. Fields that are given, but none of them, are a fault. -/
def Columns.suffix : Columns → Except Fault String
  | .unsaid => .ok ""
  | .none => .error .unset
  | .table names => .ok (" | table " ++ ",".intercalate (names.map Value.display))

def generate (c : Config) : GenerateM TextQuery (Option String) := do
  let columns ← columns c
  match ← TextQuery.generate (renderer true) aggregate with
  | Option.none => return Option.none
  | some text => return some (text ++ (← FaultM.ofExcept columns.suffix))

end Splunk

/-- A dashboard that grows with each rule. -/
structure SplunkDashboard where
  query : TextQuery
  names : List String := []
  text : String
deriving Repr, Inhabited

namespace SplunkDashboard

/-- What stands before the title of a panel. -/
def panelStart : String := "<row><panel><title>"

/-- What stands between the title and the query of a panel. -/
def panelQuery : String := "</title><table><search><query>"

/-- What stands after the query of a panel. -/
def panelEnd : String :=
  "</query><earliest>$field1.earliest$</earliest><latest>$field1.latest$</latest>" ++
  "<sampleRatio>1</sampleRatio>" ++
  "</search><option name=\"count\">20</option><option name=\"dataOverlayMode\">none</option>" ++
  "<option name=\"drilldown\">row</option><option name=\"percentagesRow\">false</option>" ++
  "<option name=\"refresh.display\">" ++
  "progressbar</option><option name=\"rowNumbers\">false</option>" ++
  "<option name=\"totalsRow\">false</option>" ++
  "<option name=\"wrap\">true</option></table></panel></row>"

def start : String :=
  "<form><label>MyDashboard</label><fieldset submitButton=\"false\">" ++
  "<input type=\"time\" token=\"field1\">" ++
  "<label></label><default><earliest>-24h@h</earliest><latest>now</latest></default>" ++
  "</input></fieldset>"

def finish : String := "</form>"

def new (options : Options) : SplunkDashboard :=
  { query := ⟨options, Splunk.dialect⟩, text := start }

def write (s : String) : GenerateM SplunkDashboard Unit :=
  modify fun w => { w with target := { w.target with text := w.target.text ++ s } }

/-- The aggregation of a condition; near has none. -/
def aggregate (a : Aggregation) : GenerateM TextQuery String :=
  if a.function = some .near then return ""
  else pipelineAggregation "stats " "search" a

def queryText (p : ParsedCondition) : GenerateM SplunkDashboard (Option String) :=
  GenerateM.within query (fun q t => { t with query := q })
    (GenerateM.query (TextQuery.search (Splunk.renderer false)) aggregate p)

def tagged (s : String) : String :=
  Text.replaceChar '>' "&gt;" (Text.replaceChar '<' "&lt;" s)

/-- Adds a panel for a condition that has a query. -/
def addPanel (p : ParsedCondition) : GenerateM SplunkDashboard Unit := do
  match ← queryText p with
  | none => pure ()
  | some q =>
    write panelStart
    write (← GenerateM.ruleName names fun ns t => { t with names := ns })
    write panelQuery
    write (tagged q)
    write panelEnd

def addPanels : List ParsedCondition → GenerateM SplunkDashboard Unit
  | [] => pure ()
  | p :: rest => do
    addPanel p
    addPanels rest

def generate : GenerateM SplunkDashboard (Option String) := do
  addPanels (← GenerateM.conditions)
  return none

def finalize (t : SplunkDashboard) : String × SplunkDashboard :=
  let text := t.text ++ finish
  (text, { t with text })

end SplunkDashboard

end SigmaQuery
