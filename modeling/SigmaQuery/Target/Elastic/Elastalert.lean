import SigmaQuery.Json.Writer
import SigmaQuery.Target.Elastic.QueryString
import SigmaQuery.Text.Numeral

/-!
# Elastalert

Alert rules for Elastalert. An aggregation becomes a metric with an upper or a lower threshold.
-/

namespace SigmaQuery.Elastic

/-- A target for alert rules. -/
structure Elastalert where
  base : QueryString
  names : List String := []
  alerts : Entries := []
deriving Repr, Inhabited

namespace Elastalert

def optionSpecs : List OptionSpec :=
  keywordOptions ++
  [{ name := "emails"
     default := .null
     help := "Email addresses for Elastalert notification, if you want to alert several email " ++
       "addresses put them coma separated" },
   { name := "smtp_host", default := .null, help := "SMTP server address" },
   { name := "from_addr", default := .null, help := "Email sender address" },
   { name := "smtp_auth_file", default := .null, help := "Local path with login info" },
   { name := "realert_time"
     default := .text "0m"
     help := "Ignore repeating alerts for a period of time" },
   { name := "expo_realert_time"
     default := .text "60m"
     help := "This option causes the value of realert to exponentially increase while alerts " ++
       "continue to fire" }]

def new (o : Options) : Elastalert :=
  { base := .new o }

/-! ## Parts of an alert -/

/-- The unit of a time frame; months for an unknown letter. -/
def unitName : List Char → String
  | ['s'] => "seconds"
  | ['m'] => "minutes"
  | ['h'] => "hours"
  | ['d'] => "days"
  | _ => "months"

/-- A time frame: a number and the letter of its unit. -/
def timeframe : Value → Except Fault Value
  | .text s =>
    let unit := s.toList.drop (s.length - 1)
    match Text.integer? (String.ofList s.toList.dropLast) with
    | some n => .ok (record [(unitName unit, .int n)])
    | none => .error .noValue
  | _ => .error .wrongType

def priority (level : Value) : Except Fault Nat :=
  if !level.hashable then .error .wrongType
  else if level.same (.text "critical") then .ok 1
  else if level.same (.text "high") then .ok 2
  else if level.same (.text "medium") then .ok 3
  else if level.same (.text "low") then .ok 4
  else .ok 2

/-- The thresholds that a comparison sets. -/
def thresholds (operator : Option String) (n : Int) : List (String × Value) :=
  match operator with
  | some ">" => [("max_threshold", .int n)]
  | some ">=" => [("max_threshold", .int (n - 1))]
  | some "<" => [("min_threshold", .int n)]
  | some "<=" => [("min_threshold", .int (n - 1))]
  | _ => [("max_threshold", .int (n - 1)), ("min_threshold", .int (n + 1))]

def metric (a : Aggregation) : String :=
  if a.function = some .count then "cardinality" else textOrNone a.functionText

def metricField (a : Aggregation) : String :=
  match a.field with
  | none => "_id"
  | some "" => "_id"
  | some f => f ++ ".keyword"

/-- The threshold of an aggregation as a number. -/
def thresholdNumber (a : Aggregation) : Except Fault Int :=
  match a.threshold with
  | none => .error .noPart
  | some t => match Text.integer? t with
    | some n => .ok n
    | none => .error .noValue

/-- The part of an alert that says when it fires. -/
def trigger (interval : Value) (a : Option Aggregation) :
    Except Fault (List (String × Value)) :=
  match a with
  | none => .ok [("type", .text "any")]
  | some a => (thresholdNumber a).map fun n =>
    (a.group.map fun g => ("query_key", Value.text (g ++ ".keyword"))).toList ++
    [("type", .text "metric_aggregation"),
     ("buffer_time", interval),
     ("doc_type", .text "_doc"),
     ("metric_agg_type", .text (metric a)),
     ("metric_agg_key", .text (metricField a))] ++ thresholds a.operator n

def givenOption (o : Options) (name : String) : List (String × Value) :=
  if (o.get name).truthy then [(name, o.get name)] else []

/-- The part of an alert that says whom to tell. -/
def notice (o : Options) : Except Fault (List (String × Value)) :=
  let emails := o.get "emails"
  if emails.truthy then match emails with
    | .text s =>
      .ok ([("alert", .list [.text "email"]),
        ("email", .list ((s.splitOn ",").map .text))] ++
        givenOption o "smtp_host" ++ givenOption o "from_addr" ++ givenOption o "smtp_auth_file")
    | _ => .error .noPart
  else .ok [("alert", .list [.text "debug"])]

/-! ## Alerts -/

/-- The aggregation of a query. Near is not offered; the others have no part in the query. -/
def aggregate {σ : Type} (a : Aggregation) : GenerateM σ String :=
  match a.function with
  | some .near => throw (.unoffered (.aggregationFunction .null "near"))
  | some _ => return ""
  | none => throw .unset

def filter (p : ParsedCondition) : GenerateM Elastalert Value := do
  let query ← GenerateM.query
    (QueryString.searchIn base fun b t => { t with base := b }) aggregate p
  return .list [record [("query", record [("query_string", record [
    ("query", optionValue query)])])]]

/-- What all alerts of a rule have in common. -/
structure Shared where
  name : String
  description : Value
  index : String
  level : Value
  interval : Value

/-- The name of an alert: that of the rule, and the number of the condition. -/
def Shared.alertName (s : Shared) (n : Nat) : String :=
  s.name ++ "_" ++ toString n

def alert (s : Shared) (n : Nat) (p : ParsedCondition) : GenerateM Elastalert Value := do
  let o := (← get).target.base.query.options
  let priority ← FaultM.ofExcept (priority s.level)
  let realert ← FaultM.ofExcept (timeframe (o.get "realert_time"))
  let filter ← filter p
  let trigger ← FaultM.ofExcept (trigger s.interval p.aggregation)
  let notice ← FaultM.ofExcept (notice o)
  return record ([
    ("name", .text (s.alertName n)),
    ("description", s.description),
    ("index", .text s.index),
    ("priority", .int priority),
    ("realert", realert),
    ("filter", filter)] ++ trigger ++ notice)

def store (name : String) (alert : Value) : GenerateM Elastalert Unit :=
  modify fun w => { w with target :=
    { w.target with alerts := put (.text name) alert w.target.alerts } }

def addAlert (s : Shared) (n : Nat) (p : ParsedCondition) : GenerateM Elastalert Unit := do
  store (s.alertName n) (← alert s n p)

/-- Adds the alerts of several conditions, numbered from `n`. -/
def addAlerts (s : Shared) (n : Nat) : List ParsedCondition → GenerateM Elastalert Unit
  | [] => pure ()
  | p :: rest => do
    addAlert s n p
    addAlerts s (n + 1) rest

/-- What all alerts of the rule at hand have in common. The rule gets a name and the entries that it
lacks. -/
def shared (c : Config) : GenerateM Elastalert Shared := do
  let name ← GenerateM.ruleName names fun ns t => { t with names := ns }
  let _ ← GenerateM.entryOr "title" (.text "")
  let description ← GenerateM.entryOr "description" (.text "")
  let _ ← GenerateM.entryOr "falsepositives" (.text "")
  let level ← GenerateM.entryOr "level" (.text "")
  let _ ← GenerateM.entryOr "tags" (.list [.text "NOT-DEF"])
  let interval ← FaultM.ofExcept
    (timeframe (← GenerateM.detectionEntryOr "timeframe" (.text "30m")))
  let source ← GenerateM.logSource c
  let index := source.index.head?.getD "logstash-*"
  return { name, description, index, level, interval }

def generate (c : Config) : GenerateM Elastalert (Option String) := do
  let s ← shared c
  addAlerts s 0 (← GenerateM.conditions)
  return none

/-- The texts of alerts, each with sorted keys. -/
def alertTexts : Entries → Except Fault (List String)
  | [] => .ok []
  | (_, v) :: rest => match Json.sorted? v with
    | none => .error .wrongType
    | some s => (alertTexts rest).map ((s ++ "\n\n") :: ·)

def finalize (t : Elastalert) : Except Fault String :=
  (alertTexts t.alerts).map String.join

end Elastalert

end SigmaQuery.Elastic
