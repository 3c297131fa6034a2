import SigmaQuery.Json.Writer
import SigmaQuery.Target.Elastic.QueryString

/-!
# Chained watches

Watches for X-Pack that write an alert into an index, with a link to the hits. The target keeps one
watch for each rule name: that of the last condition.
-/

namespace SigmaQuery.Elastic

structure ChainedWatcher where
  base : QueryString
  names : List String := []
  watches : Entries := []
deriving Repr, Inhabited

namespace ChainedWatcher

def new (o : Options) : ChainedWatcher :=
  { base := .new o }

def interval : Nat := 10

/-- Links to the references of a rule, numbered from `n`. -/
def links (n : Nat) : List Value → List String
  | [] => []
  | v :: rest =>
    ("<a href=\"" ++ v.display ++ "\">link_" ++ toString n ++ "</a>") :: links (n + 1) rest

def message (title description : Value) (references : List Value) : String :=
  "title: " ++ title.display ++ "<br/>description: " ++ description.display ++
    "<br/>references: " ++ ", ".intercalate (links 1 references)

/-- The script that makes the alert from the hits. -/
def script : String :=
  "def id_list = []; " ++
  "id_list = ctx.payload.main.hits.hits.stream().map(b -> " ++
  "b._id).collect(Collectors.toList()); " ++
  "def execDT = Instant.ofEpochMilli(ctx.execution_time.getMillis()); " ++
  "def startDT = execDT.minus(ctx.metadata.interval_int, ChronoUnit.MINUTES); " ++
  "def endDT = execDT.plus(ctx.metadata.interval_int, ChronoUnit.MINUTES); " ++
  "String enc_query = String.join('\" \"', id_list); " ++
  "enc_query = '_id:(\"' +enc_query +'\")';enc_query=enc_query.replace(' " ++
  "','%20');enc_query=enc_query.replace('\"','%22'); " ++
  "enc_query=enc_query.replace('\\\\','%5C'); " ++
  "String discover_url = " ++
  "ctx.metadata.kibana_host+'/app/kibana#/discover?_g=(refreshInterval:(pause:!t,va" ++
  "lue:0),time:(from:\\'' + startDT + '\\',absolute:quick,to:\\'' + endDT + " ++
  "'\\'))&_a=(columns:!(_source),index:\\''+ctx.metadata.index_uid+'\\',interval:auto," ++
  "query:(language:lucene,query:\\'' + enc_query + " ++
  "'\\'),sort:!(\\'@timestamp\\',desc))'; " ++
  "return ['resource.URL': discover_url,'@timestamp': System.currentTimeMillis(), " ++
  "'message': ctx.metadata.message, " ++
  "'ecs_version' : '1.0.0','device.vendor' : 'SOCPrime','device.product': 'Sigma', " ++
  "'event.type' : 'alert','event.severity' : '7','event.labels' : " ++
  "'Queued','event.count': ctx.payload.main.hits.hits.length, " ++
  "'event.timestamp': ctx.execution_time]"

/-- The action of a watch: the alert goes into an index. -/
def action : Value :=
  record [("index_payload", record [
    ("condition", record [("always", record [])]),
    ("transform", record [("chain", .list [record [("script", record [
      ("source", .text script), ("lang", .text "painless")])]])]),
    ("index", record [
      ("index", .text "<alerts_ecs-\x7bnow/d\x7d>"), ("doc_type", .text "_doc")])])]

def searchBody : Value :=
  record [("query", record [("bool", record [("must", .list [
    record [("query_string", record [
      ("query", .text "\x7b\x7bctx.metadata.query\x7d\x7d"), ("analyze_wildcard", .bool true)])],
    record [("range", record [("@timestamp", record [
      ("gte", .text "\x7b\x7bctx.metadata.interval\x7d\x7d")])])]])])])]

def watch (indices : List String) (query : Option String) (message : String) : Value :=
  record [
    ("trigger", record [("schedule", record [
      ("interval", .text (toString interval ++ "m"))])]),
    ("input", record [("chain", record [("inputs", .list [record [("main", record [
      ("search", record [("request", record [
        ("search_type", .text "query_then_fetch"),
        ("indices", .list (indices.map .text)),
        ("types", .list []),
        ("body", searchBody)])])])]])])]),
    ("condition", record [("compare", record [("ctx.payload.main.hits.total", record [
      ("gt", .int 0)])])]),
    ("actions", action),
    ("metadata", record [
      ("kibana_host", .text "https://SET-KIBANA-HOST:5601"),
      ("index_uid", .text "SET-INDEX-PATTERN-ID"),
      ("query", optionValue query),
      ("interval", .text ("now-" ++ toString interval ++ "m")),
      ("interval_int", .int interval),
      ("message", .text message)])]

/-- Sets the watches of several conditions. -/
def setWatches (name : String) (indices : List String) (message : String) :
    List ParsedCondition → GenerateM ChainedWatcher Unit
  | [] => pure ()
  | p :: rest => do
    let query ← QueryString.searchIn base (fun b t => { t with base := b }) p.search
    modify fun w => { w with target := { w.target with
      watches := put (.text name) (watch indices query message) w.target.watches } }
    setWatches name indices message rest

def generate (c : Config) : GenerateM ChainedWatcher (Option String) := do
  let name ← GenerateM.ruleName names fun ns t => { t with names := ns }
  let title ← GenerateM.entryOr "title" (.text "")
  let description ← GenerateM.entryOr "description" (.text "")
  let references ← GenerateM.entryOr "references" (.text "")
  let source ← GenerateM.logSource c
  let links ← FaultM.ofExcept references.elements
  setWatches name source.index (message title description links) (← GenerateM.conditions)
  return none

def finalize (t : ChainedWatcher) : String :=
  String.join (t.watches.map fun (_, v) => Json.indented v ++ "\n")

end ChainedWatcher

end SigmaQuery.Elastic
