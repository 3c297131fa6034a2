import SigmaQuery.Json.Writer
import SigmaQuery.Target.Elastic.Keyword

/-!
# Search requests

Searches as JSON requests to Elasticsearch. The target collects one request for each condition. A rule
without a time frame gets the one of the rule before it.
-/

namespace SigmaQuery.Elastic

/-- A target for search requests. -/
structure SearchRequest where
  options : Options
  keywords : Keywords
  title : Value := .null
  interval : Value := .null
  /-- The indices of the last rule; none before the first rule. -/
  indices : Option (List String) := none
  queries : List Value := []
deriving Repr, Inhabited

namespace SearchRequest

def optionSpecs : List OptionSpec :=
  commentOption :: keywordOptions ++
  [{ name := "es"
     default := .text "http://localhost:9200"
     help := "Host and port of Elasticsearch instance" },
   { name := "output"
     default := .text "import"
     help := "Output format: import = JSON search request, curl = Shell script that do the " ++
       "search queries via curl"
     keptAs := some "output_type" }]

def new (o : Options) : SearchRequest :=
  { options := o, keywords := .new o }

/-! ## Filters -/

def boolean (occurrence : String) (filters : Value) : Value :=
  record [("bool", record [(occurrence, filters)])]

/-- The key that a value is written as. A list or a map is no key. -/
def keyOf : Value → Except Fault Key
  | .text s => .ok (.text s)
  | .list _ => .error .wrongType
  | .map _ => .error .wrongType
  | v => .ok (.text (Json.scalarText v))

/-- A field with one value: with wildcards in a keyword field, as a phrase elsewhere. -/
def leaf (field v : Value) : FaultM SearchRequest Value := do
  let name ← FaultM.zoom keywords (fun k t => { t with keywords := k })
    (Keywords.fieldName field v)
  let kind := if (← get).keywords.matched then "wildcard" else "match_phrase"
  let key ← FaultM.ofExcept (keyOf name)
  return record [(kind, .map [(key, v)])]

def leaves (field : Value) : List Value → FaultM SearchRequest (List Value)
  | [] => pure []
  | v :: rest => do
    let filter ← leaf field v
    return filter :: (← leaves field rest)

def item (field v : Value) : FaultM SearchRequest Value :=
  match v with
  | .list vs => do return boolean "should" (.list (← leaves field vs))
  | .text _ => leaf field v
  | .int _ => leaf field v
  | _ => throw (.type (.mapValueOrList v.typeText))

def anywhere (v : Value) : Value :=
  record [("multi_match",
    record [("query", v), ("fields", .list []), ("type", .text "phrase")])]

def testedField (items : List Cond) : Except Fault Value :=
  match items with
  | [] => .ok .null
  | .value v :: _ => .ok v
  | .absent :: _ => .ok .null
  | c :: _ => .error (unexpectedNode c)

/-- A filter for a field that is not empty. -/
def existsFilter (field : Value) : Value :=
  record [("exists", record [("field", field)])]

mutual

def render : Cond → FaultM SearchRequest Value
  | .all _ items => do return boolean "must" (.list (← renderEach items))
  | .any items => do return boolean "should" (.list (← renderEach items))
  | .not items => do return boolean "must_not" (.list (← renderEach items))
  | .isNull items => do
    return boolean "must_not" (existsFilter (← FaultM.ofExcept (testedField items)))
  | .notNull items => do return existsFilter (← FaultM.ofExcept (testedField items))
  | .group inner => render inner
  | .seq _ => do throw (.unoffered (.listNode (← get).title))
  | .item field v => item field v
  | .value (.text s) => return anywhere (.text s)
  | .value (.int n) => return anywhere (.int n)
  | .value (.list _) => do throw (.unoffered (.listNode (← get).title))
  | c => throw (unexpectedNode c)

def renderEach : List Cond → FaultM SearchRequest (List Value)
  | [] => pure []
  | c :: rest => do
    let filter ← render c
    return filter :: (← renderEach rest)

end

/-! ## Requests -/

def request (filter : Value) : Value :=
  record [("query", record [("constant_score", record [("filter", filter)])])]

def setLast (v : Value) : GenerateM SearchRequest Unit :=
  modify fun w => { w with target :=
    { w.target with queries := w.target.queries.dropLast ++ [v] } }

/-- The part of a request that counts the events of each group. -/
def groupCounts (group : String) (a : Aggregation) : Value :=
  record [(group ++ "_count", record [
    ("terms", record [("field", .text group)]),
    ("aggs", record [("limit", record [("bucket_selector", record [
      ("buckets_path", record [("count", .text "_count")]),
      ("script", .text ("params.count " ++ textOrNone a.operator ++ " " ++
        textOrNone a.threshold))])])])])]

/-- The aggregation of a condition. Only counting is offered; without groups it has no part. -/
def aggregation (a : Aggregation) : GenerateM SearchRequest (Option Value) := do
  match a.function with
  | some .count => return a.group.map fun g => groupCounts g a
  | some f => throw (.unoffered (.aggregationFunction (← get).target.title f.name))
  | none => throw .unset

def dateField (c : Config) : Value :=
  ((c.document.getD .null).get? (.text "dateField")).getD (.text "date")

/-- A filter for events since the start of a time frame. -/
def rangeFilter (field : Key) (interval : Value) : Value :=
  record [("range", .map [(field, record [("gte", .text ("now-" ++ interval.display))])])]

/-- Adds filters that must hold. Only a combination keeps what it had. -/
def require (filter : Value) (extra : List Value) : Value :=
  match filter with
  | .map es => match lookup (.text "bool") es with
    | some (.map parts) =>
      let must := match lookup (.text "must") parts with
        | some (.list filters) => filters
        | _ => []
      .map (put (.text "bool") (.map (put (.text "must") (.list (must ++ extra)) parts)) es)
    | _ => boolean "must" (.list extra)
  | _ => boolean "must" (.list extra)

/-- Adds the time frame to the last request, which is put together by `finish`. A date field that is
no key is a fault, but leaves the filter as a combination. -/
def addTimeframe (c : Config) (finish : Value → Value) (interval filter : Value) :
    GenerateM SearchRequest Unit := do
  setLast (finish (require filter []))
  let field ← FaultM.ofExcept (keyOf (dateField c))
  setLast (finish (require filter [rangeFilter field interval]))

def addRequest (c : Config) (p : ParsedCondition) : GenerateM SearchRequest Unit := do
  modify fun w => { w with target :=
    { w.target with queries := w.target.queries ++ [request (.map [])] } }
  let filter ← GenerateM.target (render p.search)
  setLast (request filter)
  let counts ← match p.aggregation with
    | some a => aggregation a
    | none => pure none
  let extra := match counts with
    | some v => [("aggs", v)]
    | none => []
  let finish := fun (filter : Value) => record ([("query",
    record [("constant_score", record [("filter", filter)])])] ++ extra)
  setLast (finish filter)
  let interval := (← get).target.interval
  if interval.truthy then
    addTimeframe c finish interval filter

def addRequests (c : Config) : List ParsedCondition → GenerateM SearchRequest Unit
  | [] => pure ()
  | p :: rest => do
    addRequest c p
    addRequests c rest

/-- The time frame of a rule, if it has one. -/
def timeframe? (document : Value) : Option Value :=
  (document.get? (.text "detection")).bind fun d => d.get? (.text "timeframe")

def generate (c : Config) : GenerateM SearchRequest (Option String) := do
  let title ← GenerateM.entry "title"
  modify fun w => { w with target := { w.target with title } }
  let source ← GenerateM.logSource c
  modify fun w => { w with target := { w.target with indices := some source.index } }
  match timeframe? (← get).rule.document with
  | some interval => modify fun w => { w with target := { w.target with interval } }
  | none => pure ()
  addRequests c (← GenerateM.conditions)
  return none

/-- All requests as text: as JSON, or as a command for the first one. -/
def finalize (t : SearchRequest) : Except Fault (Option String) :=
  match t.indices with
  | none => .error .noPart
  | some indices =>
    let index := match indices with
      | [i] => i ++ "/"
      | _ => ""
    if (t.options.get "output").same (.text "curl") then match t.queries with
      | [] => .ok none
      | q :: _ =>
        .ok (some ("\\curl -XGET '" ++ (t.options.get "es").display ++ "/" ++ index ++
          "_search?pretty' -H 'Content-Type: application/json' -d'" ++ Json.indented q ++ "'"))
    else match t.queries with
      | [q] => .ok (some (Json.indented q))
      | qs => .ok (some (Json.indented (.list qs)))

end SearchRequest

end SigmaQuery.Elastic
