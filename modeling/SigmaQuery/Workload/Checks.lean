import SigmaQuery.Collection.Basic
import SigmaQuery.Condition.Node
import SigmaQuery.Condition.TokenList
import SigmaQuery.Server
import SigmaQuery.Workload.Conversion

/-!
# Workloads on single parts

Configurations, filters and conditions are made in any number and put to use. Some inputs are wrong on
purpose; a short text stands for each fault.
-/

namespace SigmaQuery.Workload

open Corpus (map texts source)

/-- A text that stands for a fault, or another one. -/
def verdict {α : Type} (onFault otherwise : String) : Except Fault α → Value
  | .ok _ => .text otherwise
  | .error _ => .text onFault

/-! ## Configurations -/

/-- A log source of a made-up configuration. Every fifth has a category, every other one a service,
and two of three have indices. -/
def madeSource (i : Nat) : Value :=
  let n := toString i
  map ((if i % 5 = 0 then [("category", Value.text ("cat" ++ toString (i % 3)))] else []) ++
    (if i % 3 = 0 then [("index", texts ["idx-" ++ n, "idx-" ++ n ++ "-b"])]
     else if i % 3 = 1 then [("index", .text ("idx-" ++ n))] else []) ++
    [("product", .text ("prod" ++ toString (i % 6)))] ++
    (if i % 2 = 1 then [("service", .text ("svc" ++ toString (i % 4)))] else []))

/-- A configuration with log sources in any number and all sorts of field mappings. -/
def madeConfig (n : Nat) : Value :=
  Json.sortKeys (map
    [("defaultindex", .text "logs-*"),
     ("fieldmappings", map
      [("CommandLine", texts ["proc.cmd", "cmdline"]),
       ("EventID", .text "event_id"),
       ("Image", map
        [("EventID=1", texts ["image_path", "process_image"]), ("default", .text "process_path")]),
       ("User", map [("EventID=2", .text "account_name"), ("default", .text "user_name")])]),
     ("logsources", map ((List.range n).map fun i => ("ls" ++ toString i, madeSource i)))])

def badSources : List Value :=
  [.text "none", map [("product", .int 1)], map [],
   map [("product", .text "p"), ("index", .int 1)],
   map [("product", .text "p"), ("conditions", .list [])]]

/-- The rule that is parsed with the configuration. -/
def madeRule : Value :=
  map [("title", .text "Mapped"),
    ("logsource", source [("product", "prod0")]),
    ("detection", map
      [("sel", map
        [("EventID", .int 1), ("CommandLine", .text "x"), ("Image", .text "y"),
         ("User", .text "z"), ("ParentImage", .null)]),
       ("condition", .text "sel")])]

/-- The log source for the i-th query, and its condition on the index. -/
def sourceTexts (c : Config) (i : Nat) : Except Fault (List Value) := do
  let s ← c.logSource (.text ("cat" ++ toString (i % 3))) (.text ("prod" ++ toString (i % 6)))
    (.text ("svc" ++ toString (i % 4)))
  let condition ← match s.indexCondition with
    | none => .ok "None"
    | some cond => cond.display
  return [.text s.display, .text condition]

/-- A log source is the one that it describes itself. -/
def matchesItself (s : LogSource) : Value :=
  .text ((s.matches? (optionValue s.category) (optionValue s.product) (optionValue s.service)).elim
    "None" fun b => (Value.bool b).display)

/-- Parses the rule a number of times: its log source and its search each time. -/
def parseMapped : Nat → ConfigM (List Value)
  | 0 => return []
  | n + 1 => do
    let r ← Rule.parse madeRule
    let s ← FaultM.ofExcept (r.logSource (← get))
    let searches ← FaultM.ofExcept (r.conditions.mapM fun p => p.search.display)
    return shown (s.map LogSource.display) :: searches.map .text ++ (← parseMapped n)

/-- The names that some fields are mapped to. -/
def mappedNames (c : Config) : Except Fault (List Value) :=
  ["EventID", "CommandLine", "Image", "User", "Unknown"].mapM fun f =>
    (c.fieldName (.text f)).map fun v => Value.text v.display

/-- Uses a configuration with a number of log sources. What a rule takes from a default mapping is
missing in the next use. -/
def configuration (n : Nat) : ConfigM (List Value) := do
  let c ← get
  let bySource ← FaultM.ofExcept ((List.range n).mapM (sourceTexts c))
  let own ← FaultM.ofExcept (LogSource.ofValue none
    (map [("product", .text "empty"), ("index", texts ["a", "b"])]) .null .null (.text "and") none)
  let merged ← FaultM.ofExcept (LogSource.merge [] (texts ["a", "b"]) .null (.text "and"))
  let bad := badSources.map fun v =>
    verdict "bad" "ok" (LogSource.ofValue none v .null .null (.text "and") none)
  let rules ← parseMapped 4
  let names ← FaultM.ofExcept (mappedNames (← get))
  return shown c.indexField :: bySource.flatten ++
    [.text own.display, .text merged.display] ++ c.logSources.map matchesItself ++ bad ++
    [verdict "bad-ls" "ok" (FaultM.start (Config.chooseTarget none)
        { c with document := some (map [("logsources", .list [])]) }).1,
     verdict "bad-default" "ok" (LogSource.merge [] (.int 1) .null (.text "and")),
     verdict "bad-fm" "ok"
      (Config.ofDocument (map [("fieldmappings", map [("f", map [("x", .text "y")])])])),
     verdict "bad-fm" "ok"
      (Config.ofDocument (map [("fieldmappings", map [("f", map [("default", .int 1)])])]))] ++
    names ++ rules

/-- The made-up configuration, for a target with an index field. -/
def configured (n : Nat) : Except Fault Config := do
  let c ← Config.ofDocument (madeConfig n)
  let (made, c) := FaultM.start (Config.chooseTarget TargetKind.sumologic.indexField) c
  made
  return c

/-! ## Filters and collections -/

/-- A document with a level, a status, a log source and tags. -/
def ratedDocument (i : Nat) : Value :=
  map [("level", .text (["low", "medium", "high", "critical"].getD (i % 4) "")),
    ("logsource", source [("product", "windows"), ("service", "sysmon")]),
    ("status", .text (["experimental", "testing", "stable"].getD (i % 3) "")),
    ("tags", texts ["attack.execution", "attack.t" ++ toString (1000 + i)])]

def bareDocuments : List Value :=
  [map [("level", .text "critical")], map [],
   map [("level", .text "low"), ("status", .text "stable")]]

/-- The filters that the documents are put through. -/
def filters : List String :=
  ["level>=low", "level<=high", "level=medium", "status=stable", "logsource=windows",
   "tag=attack.execution", "tag=attack.t1003"]

def badFilters : List String :=
  ["level=none", "level>=none", "level<=none", "status=none", "none"]

/-- A collection with a global document and a reset. -/
def madeCollection : List Value :=
  [map [("action", .text "global"), ("detection", map [("condition", .text "sel")]),
      ("logsource", source [("product", "windows")]), ("title", .text "Logon")],
   map [("detection", map [("sel", map [("EventID", .int 4624)])])],
   map [("action", .text "reset")],
   map [("detection", map [("condition", .text "sel"), ("sel", map [("EventID", .int 1)])]),
      ("title", .text "Process")]]

/-- The verdicts of a filter on documents. -/
def filtered (documents : List Value) (expression : String) : Except Fault (List Value) := do
  let f ← RuleFilter.parse expression
  documents.mapM fun d => (f.accepts d).map Value.bool

/-- Filters a number of documents and converts a collection. -/
def collections (n : Nat) : Except Fault (List Value) := do
  let documents := (List.range n).map ratedDocument ++ bareDocuments
  let verdicts ← filters.mapM (filtered documents)
  let (made, c) := FaultM.start (Target.new .esQs []) .empty
  let t ← made
  let (read, c) := FaultM.start (Collection.parse none madeCollection) c
  let queries ← ((← read).generate c t).1
  return verdicts.flatten ++ (badFilters.map fun e => verdict "bad-filter" "ok" (RuleFilter.parse e)) ++
    queries.map .text ++ [.int TargetKind.every.length]

/-! ## Conditions -/

/-- Conditions with all sorts of aggregations. -/
def aggregations : List String :=
  ["selection | count() > 5", "selection | count(field) by grp < 3", "selection | count() == 1",
   "selection | near sel1 and sel2 and not sel3"]

/-- The tokens of a condition: their text, their number, what the first is, and the fault of a target
without aggregations. -/
def tokenTexts (condition : String) : Except Fault (List Value) := do
  let tokens ← tokenize condition
  let first ← itemAt tokens 0
  let isName ← first.equals (.int TokenKind.id.number)
  return [.text (displayTokens tokens), .int tokens.length, .bool isName,
    verdict "nie" "ok" (Target.graylog ⟨[], Graylog.dialect⟩).missingAggregation]

/-- One of many searches that have an item in common. -/
def term (i : Nat) : Cond :=
  .all none ([.item (.text "EventID") (.int 1),
    .item (.text "CommandLine") (texts ["*x" ++ toString i ++ "*", "*y*"])] ++
    (if i % 3 = 0 then [.item (.text "User") (.text "root")] else []) ++
    (if i % 4 = 0 then
      [.item (.text "Flag") (.int 1), .not [.isNull [.value (.text "Field")]],
        .not [.notNull [.value (.text "Field2")]]]
    else []))

/-- A number of searches, simplified together. -/
def simplified (n : Nat) : Except Fault Value := do
  let c ← (Cond.any ((List.range n).map term)).simplify
  return .text (← c.display)

/-- A rule with an aggregation by computer. -/
def groupedRule : Value :=
  map [("detection", map [("sel", map [("EventID", .int 1)]),
    ("condition", .text "sel | count() by ComputerName > 5")])]

/-- The function and the group of the aggregation of a rule. -/
def aggregationTexts (rule : Value) : Except Fault (List Value) := do
  let r ← (FaultM.start (Rule.parse rule) .empty).1
  match r.conditions with
  | { aggregation := some a, .. } :: _ =>
    let function := (a.function.map fun f => Value.int f.number).getD .null
    return [function, shown a.group]
  | _ => .error .noPart

/-- Reads conditions and simplifies searches in a number. -/
def conditions (n : Nat) : Except Fault (List Value) := do
  let tokens ← aggregations.mapM tokenTexts
  let read ← tokenize "selection"
  let nothing := match ← Cond.absent.simplify with
    | .absent => Value.null
    | _ => .text "some"
  let small ← simplified (max 2 (n / 4))
  let middle ← simplified (max 2 (n / 2))
  let all ← simplified (max 2 n)
  let counted ← aggregationTexts groupedRule
  return tokens.flatten ++
    [verdict "type" "ok" (tokensOf (.int 5)), verdict "parse" "ok" (tokenize "a ; b"),
     verdict "idx" "ok" (itemAtKey read (.text "x")),
     verdict "add" "ok" (NodeKind.negation.add [] (.int 1)),
     verdict "ptn" "ok" (NodeKind.general.make []),
     verdict "cb" "ok" (NodeKind.general.add [] (.int 1)),
     verdict "val" "ok" (NodeKind.nullTest.add [.text "f"] (.int 1)),
     nothing, small, middle, all] ++ counted ++
    [.text Server.standard.index]

end SigmaQuery.Workload
