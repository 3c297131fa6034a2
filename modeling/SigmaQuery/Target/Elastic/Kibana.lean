import SigmaQuery.Json.Writer
import SigmaQuery.Target.Elastic.QueryString

/-!
# Kibana

Saved searches for Kibana, as a file for import or as shell commands.
-/

namespace SigmaQuery.Elastic

/-- A target for Kibana. -/
structure Kibana where
  base : QueryString
  names : List String := []
  /-- The saved searches so far. -/
  searches : List Value := []
  /-- The commands that look up index patterns. -/
  indexSearches : List String := []
deriving Repr, Inhabited

namespace Kibana

def optionSpecs : List OptionSpec :=
  keywordOptions ++
  [{ name := "output"
     default := .text "import"
     help := "Output format: import = JSON file manually imported in Kibana, curl = Shell " ++
       "script that imports queries in Kibana via curl (jq is additionally required)"
     keptAs := some "output_type" },
   { name := "es"
     default := .text "localhost:9200"
     help := "Host and port of Elasticsearch instance" },
   { name := "index", default := .text ".kibana", help := "Kibana index" },
   { name := "prefix", default := .text "Sigma: ", help := "Title prefix of Sigma queries" }]

def new (o : Options) : Kibana :=
  { base := .new o }

def options (t : Kibana) : Options :=
  t.base.query.options

/-- The shell variable for an index pattern. -/
def variableName (index : String) : String :=
  "index_" ++ Text.replaceChar '*' "X" (Text.replaceChar '-' "__" index)

/-- The command that looks up an index pattern. -/
def indexSearch (o : Options) (index : String) : String :=
  "export " ++ variableName index ++ "=$(curl -s '" ++ (o.get "es").display ++ "/" ++
    (o.get "index").display ++ "/_search?q=index-pattern.title:" ++
    Text.replaceChar '*' "\\*" index ++
    "' | jq -r '.hits.hits[0]._id | ltrimstr(\"index-pattern:\")')"

def searchSource (index : String) (query : Option String) : Value :=
  record [
    ("index", .text index),
    ("filter", .list []),
    ("highlight", record [
      ("pre_tags", .list [.text "@kibana-highlighted-field@"]),
      ("post_tags", .list [.text "@/kibana-highlighted-field@"]),
      ("fields", record [("*", record [])]),
      ("require_field_match", .bool false),
      ("fragment_size", .int 2147483647)]),
    ("query", record [("query_string", record [
      ("query", optionValue query), ("analyze_wildcard", .bool true)])])]

def savedSearch (name title : String) (description : Value) (columns : List Value)
    (source : Value) : Value :=
  record [
    ("_id", .text name),
    ("_type", .text "search"),
    ("_source", record [
      ("title", .text title),
      ("description", description),
      ("hits", .int 0),
      ("columns", .list columns),
      ("sort", .list [.text "@timestamp", .text "desc"]),
      ("version", .int 1),
      ("kibanaSavedObjectMeta", record [("searchSourceJSON", source)])])]

def titleText (start title : Value) : Except Fault String :=
  match start, title with
  | .text p, .text t => .ok (p ++ t)
  | _, _ => .error .wrongType

def addSearch (name : String) (description : Value) (columns : List Value)
    (indices : List String) (p : ParsedCondition) : GenerateM Kibana Unit := do
  let query ← QueryString.searchIn base (fun b t => { t with base := b }) p.search
  match indices with
  | [] => pure ()
  | [index] =>
    let o := (← get).target.options
    let title ← FaultM.ofExcept (titleText (o.get "prefix") (← GenerateM.entry "title"))
    let command := indexSearch o index
    let saved := savedSearch name title description columns (searchSource index query)
    modify fun w => { w with target := { w.target with
      indexSearches := if w.target.indexSearches.contains command then w.target.indexSearches
        else w.target.indexSearches ++ [command]
      searches := w.target.searches ++ [saved] } }
  | _ => throw (.unsupported .severalIndices)

def addSearches (name : String) (description : Value) (columns : List Value)
    (indices : List String) : List ParsedCondition → GenerateM Kibana Unit
  | [] => pure ()
  | p :: rest => do
    addSearch name description columns indices p
    addSearches name description columns indices rest

def generate (c : Config) : GenerateM Kibana (Option String) := do
  let name ← GenerateM.ruleName names fun ns t => { t with names := ns }
  let description ← GenerateM.entryOr "description" (.text "")
  let columns ← match ← GenerateM.shownFields with
    | none => pure []
    | some fields => FaultM.ofExcept (GenerateM.mappedFields c fields)
  let source ← GenerateM.logSource c
  let indices := if source.index.isEmpty then ["*"] else source.index
  addSearches name description columns indices (← GenerateM.conditions)
  return none

/-! ## Output -/

def changeEntry (k : String) (f : Value → Except Fault Value) : Value → Except Fault Value
  | .map es => match lookup (.text k) es with
    | some v => (f v).map fun v => .map (put (.text k) v es)
    | none => .error .noKey
  | _ => .error .wrongType

def changeSource (f : Value → Except Fault Value) : Value → Except Fault Value :=
  changeEntry "_source" (changeEntry "kibanaSavedObjectMeta" (changeEntry "searchSourceJSON" f))

def jsonText (v : Value) : Value :=
  .text (Json.compact v)

/-- Saved searches for import: the source of each is JSON in a text. -/
def forImport : List Value → Except Fault (List Value)
  | [] => .ok []
  | s :: rest => match changeSource (fun v => .ok (jsonText v)) s with
    | .error e => .error e
    | .ok s => (forImport rest).map (s :: ·)

/-- The source of a saved search for the shell: the index is a variable, and backslashes are
doubled. -/
def forShell (source : Value) : Except Fault Value :=
  (changeEntry "index" (fun
    | .text index => .ok (.text ("$" ++ variableName index))
    | _ => .error .noPart) source).map fun v =>
    .text (Text.replaceChar '\\' "\\\\" (Json.compact v))

/-- The command that stores a saved search. -/
def storeCommand (o : Options) (search : Value) : Except Fault String :=
  match search.get? (.text "_id"), search.get? (.text "_source") with
  | some (.text name), some source =>
    .ok ("curl -s -XPUT -H 'Content-Type: application/json' --data-binary @- '" ++
      (o.get "es").display ++ "/" ++ (o.get "index").display ++ "/_doc/search:" ++ name ++
      "' <<EOF\n" ++ Json.indented (record [("type", .text "search"), ("search", source)]) ++
      "\nEOF")
  | _, _ => .error .noKey

def firstCommand (t : Kibana) : Except Fault (Option String × Kibana) :=
  match sortedSet t.indexSearches with
  | command :: _ => .ok (some command, t)
  | [] => match t.searches with
    | [] => .ok (none, t)
    | s :: rest => match changeSource forShell s with
      | .error e => .error e
      | .ok s => (storeCommand t.options s).map fun command =>
        (some command, { t with searches := s :: rest })

/-- The output of the target, and the target afterwards. -/
def finalize (t : Kibana) : Except Fault (Option String × Kibana) :=
  let output := t.options.get "output"
  if output.same (.text "import") then
    (forImport t.searches).map fun searches =>
      (some (Json.indented (.list searches)), { t with searches })
  else if output.same (.text "curl") then firstCommand t
  else .error (.unoffered (.outputType output))

end Kibana

end SigmaQuery.Elastic
