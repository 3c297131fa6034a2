import SigmaQuery.Json.Writer
import SigmaQuery.Target.Elastic.QueryString
import SigmaQuery.Text.Numeral

/-!
# Watcher

Watches for X-Pack. A watch searches at an interval and sends a mail where a number of hits is
reached. The target keeps one watch for each rule name: that of the last condition.
-/

namespace SigmaQuery.Elastic

/-- A target for watches. -/
structure Watcher where
  base : QueryString
  names : List String := []
  watches : Entries := []
deriving Repr, Inhabited

namespace Watcher

def optionSpecs : List OptionSpec :=
  keywordOptions ++
  [{ name := "output"
     default := .text "curl"
     help := "Output format: curl = Shell script that imports queries in Watcher index with curl"
     keptAs := some "output_type" },
   { name := "es"
     default := .text "localhost:9200"
     help := "Host and port of Elasticsearch instance" },
   { name := "mail"
     default := .null
     help := "Mail address for Watcher notification (only logging if not set)" }]

def new (o : Options) : Watcher :=
  { base := .new o }

/-! ## Aggregations -/

/-- The comparison of a threshold: the condition of the watch, the least number of documents in a
bucket, and the order of the buckets. -/
structure Comparison where
  condition : Value
  minimum : Option Int := none
  order : Option String := none

def anyHit : Value := record [("not_eq", .int 0)]

/-- The comparison of an operator with a threshold. -/
def comparison (operator : Option String) (n : Int) : Comparison :=
  match operator with
  | some ">" => ⟨record [("gt", .int n)], some (n + 1), some "desc"⟩
  | some ">=" => ⟨record [("gte", .int n)], some n, some "desc"⟩
  | some "<" => ⟨record [("lt", .int n)], none, some "asc"⟩
  | some "<=" => ⟨record [("lte", .int n)], none, some "asc"⟩
  | _ => ⟨anyHit, none, none⟩

/-- Buckets of a field, around an inner aggregation. -/
def buckets (name field order : String) (minimum : Option Int) (inner : Entries) : Entries :=
  let terms := record ([
    ("field", .text (field ++ ".keyword")),
    ("size", .int 10),
    ("order", record [("_count", .text order)])] ++
    (minimum.map fun n => ("min_doc_count", Value.int n)).toList)
  [(.text "aggs", record [(name, .map ((.text "terms", terms) :: inner))])]

/-- How a watch counts: the aggregation, the place of the value, the buckets to list, the condition,
and the order of buckets that a later condition falls back on. -/
structure Counting where
  aggregation : Entries := []
  location : String := ""
  listed : List String := []
  condition : Value
  order : Option String

/-- The order of buckets, which must be known. -/
def knownOrder (order : Option String) : Except Fault String :=
  match order with
  | some o => .ok o
  | none => .error .unset

def Counting.addBuckets (c : Counting) (name field : String) (minimum : Option Int) :
    Except Fault Counting :=
  (knownOrder c.order).map fun order =>
    { c with
      aggregation := buckets name field order minimum c.aggregation
      location := name ++ ".buckets.0." ++ c.location
      listed := c.listed ++ [name ++ ".buckets"] }

/-- Adds buckets of a field that may be missing. -/
def Counting.addOptional (c : Counting) (name : String) (field : Option String)
    (minimum : Option Int) : Except Fault Counting :=
  match field with
  | some f => c.addBuckets name f minimum
  | none => .ok c

/-- How a watch counts for an aggregation; `order` is that of an earlier condition. A condition
without a threshold fires on any hit. -/
def counting (order : Option String) (a : Option Aggregation) : Except Fault Counting :=
  match a.bind fun a => a.threshold.map fun t => (a, t) with
  | none => .ok { condition := anyHit, order }
  | some (a, threshold) => match Text.integer? threshold with
    | none => .error .noValue
    | some n =>
      let c := comparison a.operator n
      let start : Counting := { condition := c.condition, order := c.order.or order }
      match start.addOptional "agg" a.field c.minimum with
      | .error e => .error e
      | .ok inner => inner.addOptional "by" a.group c.minimum

/-! ## Messages -/

/-- A text with blanks before it up to a width. -/
def padded (width : Nat) (s : String) : String :=
  String.ofList (List.replicate (width - s.length) ' ') ++ s

def ruler : String := String.ofList (List.replicate 80 '=')

/-- The first of the listed buckets is named from the root. -/
def fromRoot : List String → List String
  | [] => []
  | first :: rest => ("aggregations." ++ first) :: rest

def tag (s : String) : String := "\x7b\x7b" ++ s ++ "\x7d\x7d"

/-- The opening lines of listed buckets, each level two dashes further in. -/
def openings (depth : Nat) : List String → List String
  | [] => []
  | b :: rest =>
    (tag ("#" ++ b) ++ "\n" ++ String.ofList (List.replicate (2 * depth) '-') ++ " " ++
      tag "key" ++ " " ++ tag "doc_count" ++ "\n") :: openings (depth + 1) rest

def bucketMessage (listed : List String) : String :=
  "Hits:\n" ++ "\n".intercalate (openings 0 listed) ++
    "\n".intercalate (listed.reverse.map fun b => tag ("/" ++ b) ++ "\n")

/-- The length of a field name, for a field that has a length. -/
def lengthOf : Value → Except Fault Nat
  | .text s => .ok s.length
  | .list vs => .ok vs.length
  | .map es => .ok es.length
  | _ => .error .wrongType

def greatestLength : List Value → Except Fault Nat
  | [] => .ok 0
  | v :: rest => match lengthOf v with
    | .error e => .error e
    | .ok n => (greatestLength rest).map (max n)

def fieldLines (fields : List Value) : Except Fault String :=
  match greatestLength fields with
  | .error e => .error e
  | .ok width =>
    if fields.isEmpty then .error .noValue
    else .ok ("\n".intercalate (fields.map fun f =>
      padded width f.display ++ " = " ++ tag ("_source." ++ f.display)))

/-- The message about single hits, with the fields that the rule wants to be shown. -/
def hitMessage (fields : Option Value) : Except Fault String :=
  let start := "Hits:\n" ++ tag "#ctx.payload.hits.hits"
  let finish := tag "/ctx.payload.hits.hits"
  match fields with
  | none => .ok (start ++ tag "_source" ++ "\n" ++ ruler ++ "\n" ++ finish)
  | some v => match v.elements with
    | .error e => .error e
    | .ok fields => (fieldLines fields).map fun lines =>
      start ++ "Hit on " ++ tag "_source.@timestamp" ++ ":\n" ++ lines ++ ruler ++ "\n" ++ finish

/-! ## Watches -/

def mailAction (address : Value) (subject body : String) : Value :=
  record [("send_email", record [("email", record [
    ("to", address),
    ("subject", .text subject),
    ("body", .text body),
    ("attachments", record [("data.json", record [("data", record [
      ("format", .text "json")])])])])])]

def watch (interval : Value) (query : Option String) (indices : List String) (c : Counting)
    (location : String) (action : Value) : Value :=
  let search := record [("query_string", record [
    ("query", optionValue query), ("analyze_wildcard", .bool true)])]
  record [
    ("trigger", record [("schedule", record [("interval", interval)])]),
    ("input", record [("search", record [("request", record [
      ("body", .map ((.text "size", .int 0) :: (.text "query", search) :: c.aggregation)),
      ("indices", .list (indices.map .text))])])]),
    ("condition", record [("compare", record [(location, c.condition)])]),
    ("actions", action)]

/-- What all watches of a rule have in common. -/
structure Shared where
  name : String
  title : Value
  interval : Value
  indices : List String

/-- The place of the value of a watch, and the message. -/
def report (c : Counting) (fields : Option Value) : Except Fault (String × String) :=
  if c.aggregation.isEmpty then
    (hitMessage fields).map fun message => ("ctx.payload.hits.total", message)
  else .ok ("ctx.payload.aggregations." ++ c.location ++ "doc_count",
    bucketMessage (fromRoot c.listed))

def queryText (p : ParsedCondition) : GenerateM Watcher (Option String) :=
  QueryString.searchIn base (fun b t => { t with base := b }) p.search

/-- The watch of a condition with a query, and the order of buckets known after it. -/
def watchOf (s : Shared) (order : Option String) (query : Option String)
    (a : Option Aggregation) : GenerateM Watcher (Value × Option String) := do
  let c ← FaultM.ofExcept (counting order a)
  let (location, message) ← FaultM.ofExcept
    (report c (lookup (.text "fields") (← GenerateM.entries)))
  let action := mailAction ((← get).target.base.query.options.get "mail")
    ("Sigma Rule '" ++ s.title.display ++ "'") message
  return (watch s.interval query s.indices c location action, c.order)

def store (name : String) (watch : Value) : GenerateM Watcher Unit :=
  modify fun w => { w with target :=
    { w.target with watches := put (.text name) watch w.target.watches } }

/-- Sets the watch of a condition. The result is the order of buckets known after it. -/
def setWatch (s : Shared) (order : Option String) (p : ParsedCondition) :
    GenerateM Watcher (Option String) := do
  let query ← queryText p
  let made ← watchOf s order query p.aggregation
  store s.name made.1
  return made.2

def setWatches (s : Shared) (order : Option String) :
    List ParsedCondition → GenerateM Watcher Unit
  | [] => pure ()
  | p :: rest => do
    let order ← setWatch s order p
    setWatches s order rest

/-- What all watches of the rule at hand have in common. The rule gets a name and the entries that it
lacks. -/
def shared (c : Config) : GenerateM Watcher Shared := do
  let name ← GenerateM.ruleName names fun ns t => { t with names := ns }
  let title ← GenerateM.entryOr "title" (.text "")
  let _ ← GenerateM.entryOr "description" (.text "")
  let _ ← GenerateM.entryOr "falsepositives" (.text "")
  let _ ← GenerateM.entryOr "level" (.text "")
  let interval ← GenerateM.detectionEntryOr "timeframe" (.text "30m")
  let source ← GenerateM.logSource c
  return { name, title, interval, indices := source.index }

def generate (c : Config) : GenerateM Watcher (Option String) := do
  let s ← shared c
  setWatches s none (← GenerateM.conditions)
  return none

def watchText (o : Options) (name : String) (v : Value) : Except Fault String :=
  let output := o.get "output"
  if output.same (.text "plain") then
    .ok ("PUT _xpack/watcher/watch/" ++ name ++ "\n" ++ Json.indented v ++ "\n")
  else if output.same (.text "curl") then
    .ok ("curl -s -XPUT -H 'Content-Type: application/json' --data-binary @- " ++
      (o.get "es").display ++ "/_xpack/watcher/watch/" ++ name ++ " <<EOF\n" ++
      Json.indented v ++ "\nEOF\n")
  else if output.same (.text "json") then .ok (Json.compact v ++ "\n")
  else .error (.unoffered (.outputType output))

def watchTexts (o : Options) : Entries → Except Fault String
  | [] => .ok ""
  | (k, v) :: rest => match watchText o k.name v with
    | .error e => .error e
    | .ok s => (watchTexts o rest).map (s ++ ·)

def finalize (t : Watcher) : Except Fault String :=
  watchTexts t.base.query.options t.watches

end Watcher

end SigmaQuery.Elastic
