import SigmaQuery.Session
import SigmaQuery.Workload.Configurations

/-!
# Conversion workloads

The corpus is parsed and converted for many targets at once. What comes out is a list of values from
which one can see that the work is done.
-/

namespace SigmaQuery.Workload

/-- Does the same work a number of times; each time finds what the times before left. -/
def repeated {σ α : Type} (work : FaultM σ α) : Nat → FaultM σ (List α)
  | 0 => return []
  | n + 1 => do
    let a ← work
    return a :: (← repeated work n)

/-- A text for a value that may be missing. -/
def shown (s : Option String) : Value :=
  .text (s.getD "None")

def sessionOf (document : Value) : Except Fault Session :=
  (Config.ofDocument document).map fun config => { config }

def addTarget (name : String) (k : TargetKind) (options : List String) : SessionM Unit := do
  let o ← FaultM.ofExcept (Options.readEach [] (options.map .text))
  Session.setTarget name (← Session.configure (Target.new k o))

/-- Parses rules under numbers as names. A rule that cannot be parsed is left out, so that no target
makes a query for it. -/
def parseRules : Nat → List Value → SessionM Unit
  | _, [] => return
  | n, rule :: rest => do
    let _ ← FaultM.attempt (Session.parse (toString n) rule)
    parseRules (n + 1) rest

def ruleNames (n : Nat) : List String :=
  (List.range (Corpus.rules n).length).map toString

/-- The queries of a target for rules; none where it makes none or fails. -/
def queries (target : String) : List String → SessionM (List (Option String))
  | [] => return []
  | rule :: rest => do
    let query ← FaultM.attempt (Session.generate target rule)
    return query.join :: (← queries target rest)

/-- Every so many-th item of a list, from a first one on. -/
def every {α : Type} (step first : Nat) (items : List α) : List α :=
  (items.zipIdx.filter fun p => p.2 % step = first).map Prod.fst

def sorted (items : List String) : Value :=
  Corpus.texts (items.mergeSort fun a b => !(b < a))

/-! ## Parsing -/

/-- The texts of a parsed rule: its searches, the tokens of its first condition and the first
token. -/
def ruleTexts (r : Rule) : Except Fault (List Value) := do
  let searches ← r.conditions.mapM fun p => p.search.display
  let tokens := match r.document.get? (.text "detection") with
    | some detection => match detection.get? (.text "condition") with
      | some (.text s) => tokenize s
      | some (.list (.text s :: _)) => tokenize s
      | _ => .ok []
    | none => .ok []
  let tokens ← tokens
  let first := (tokens.head?.map Token.display).toList
  return (searches ++ [displayTokens tokens] ++ first).map .text

def parseTexts : Nat → List Value → SessionM (List Value)
  | _, [] => return []
  | n, rule :: rest => do
    let r ← Session.parse (toString n) rule
    let texts ← FaultM.ofExcept (ruleTexts r)
    return texts ++ (← parseTexts (n + 1) rest)

def parsingSetup : SessionM Unit :=
  addTarget "es-qs" .esQs []

def parsing (n : Nat) : SessionM (List Value) :=
  parseTexts 0 (Corpus.rules n)

/-! ## Elasticsearch -/

/-- The targets around Elasticsearch under their names. -/
def elasticTargets : List (String × TargetKind × List String) :=
  [("es-qs", .esQs, ["rulecomment"]), ("es-dsl", .esDsl, []), ("kibana", .kibana, []),
   ("import", .kibana, ["output=import"]), ("curl", .kibana, ["output=curl"]),
   ("watcher0", .watcher, []), ("watcher1", .watcher, []), ("watcher2", .watcher, []),
   ("elastalert0", .elastalert, []), ("elastalert1", .elastalert, [])]

def addTargets : List (String × TargetKind × List String) → SessionM Unit
  | [] => return
  | (name, k, options) :: rest => do
    addTarget name k options
    addTargets rest

/-- Removes what a target has made. The names that it has used stay in use. -/
def withoutOutput : Target → Target
  | .esDsl t => .esDsl { t with queries := [] }
  | .kibana t => .kibana { t with searches := [] }
  | .watcher t => .watcher { t with watches := [] }
  | .elastalert t => .elastalert { t with alerts := [] }
  | t => t

/-- A target without output, after it has made its queries for rules. -/
def targetAfter (name : String) (rules : List String) : SessionM Target := do
  Session.setTarget name (withoutOutput (← Session.target name))
  let _ ← queries name rules
  Session.target name

/-- The name of the index variable that the searches of a target for Kibana use. -/
def indexVariable (k : Elastic.Kibana) (c : Config) : List Value :=
  match k.searches, c.defaultIndex with
  | _ :: _, .text index => [.text (Elastic.Kibana.variableName index)]
  | _, _ => []

/-- The searches for Kibana in one output format: how many, and their index variable. -/
def kibanaPart (name : String) (rules : List String) : SessionM (List Value) := do
  match ← targetAfter name rules with
  | .kibana k => return .int k.searches.length :: indexVariable k (← get).config
  | _ => return []

/-- The names of the watches for a part of the rules. -/
def watcherPart (part : Nat) (rules : List String) : SessionM (List Value) := do
  match ← targetAfter ("watcher" ++ toString part) (every 3 part rules) with
  | .watcher w => return [sorted (w.watches.map fun e => e.1.name)]
  | _ => return []

/-- The alerts for a part of the rules: how many, and the type of the first by name. -/
def alertPart (part : Nat) (rules : List String) : SessionM (List Value) := do
  match ← targetAfter ("elastalert" ++ toString part) (every 2 part rules) with
  | .elastalert e =>
    let byName := e.alerts.mergeSort fun a b => !(b.1.name < a.1.name)
    let type := byName.head?.bind fun a => a.2.get? (.text "type")
    return .int e.alerts.length :: type.toList
  | _ => return []

def elasticSetup (n : Nat) : SessionM Unit := do
  addTargets elasticTargets
  parseRules 0 (Corpus.rules n)

/-- Converts the corpus for Elasticsearch and the tools around it. -/
def elastic (n : Nat) : SessionM (List Value) := do
  let rules := ruleNames n
  let texts ← queries "es-qs" rules
  let requests := match ← targetAfter "es-dsl" rules with
    | .esDsl t => t.queries.length
    | _ => 0
  let searches := match ← targetAfter "kibana" rules with
    | .kibana k => [.int k.searches.length, sorted k.names]
    | _ => []
  let imported ← kibanaPart "import" rules
  let curled ← kibanaPart "curl" rules
  let watches := (← watcherPart 0 rules) ++ (← watcherPart 1 rules) ++ (← watcherPart 2 rules)
  let alerts := (← alertPart 0 rules) ++ (← alertPart 1 rules)
  let priority ← FaultM.ofExcept (Elastic.Elastalert.priority (.text "critical"))
  let timeframe ← FaultM.ofExcept (Elastic.Elastalert.timeframe (.text "45s"))
  return (texts.filterMap fun t => t.map Value.text) ++ .int requests :: searches ++
    imported ++ curled ++ watches ++ alerts ++ [.int priority, timeframe]

/-! ## Text -/

/-- The targets that write text under their names. -/
def textTargets : List (String × TargetKind × List String) :=
  [("splunk", .splunk, ["rulecomment"]), ("splunkxml", .splunkXml, []),
   ("graylog", .graylog, []), ("logpoint", .logpoint, []), ("sumologic", .sumologic, []),
   ("grep", .grep, []), ("fieldlist", .fieldList, [])]

/-- The queries of all targets for one rule. -/
def queriesOf (rule : String) : List String → SessionM (List (Option String))
  | [] => return []
  | target :: rest => do
    let query ← FaultM.attempt (Session.generate target rule)
    return query.join :: (← queriesOf rule rest)

/-- The queries of all targets for all rules. -/
def allQueries (targets : List String) : List String → SessionM (List (Option String))
  | [] => return []
  | rule :: rest => do
    let here ← queriesOf rule targets
    return here ++ (← allQueries targets rest)

/-- The starts of the outputs of targets for all rules. -/
def outputs : List String → SessionM (List Value)
  | [] => return []
  | target :: rest => do
    let text := (← Session.finalize target).getD "None"
    return .text (String.ofList (text.toList.take 200)) :: (← outputs rest)

def textSetup (n : Nat) : SessionM Unit := do
  addTargets textTargets
  parseRules 0 (Corpus.rules n)

/-- Converts the corpus for the targets that write text. -/
def text (n : Nat) : SessionM (List Value) := do
  let targets := textTargets.map Prod.fst
  let texts ← allQueries targets (ruleNames n)
  let final ← outputs targets
  return (texts.filterMap fun t => t.map Value.text) ++ final

/-! ## Security operation centers -/

/-- The targets for security operation centers, each with its options and its configuration. -/
def siemTargets : List (TargetKind × List String × Value) :=
  [(.qradar, [], Configurations.qradar), (.arcsight, [], Configurations.arcsight),
   (.qualys, [], Configurations.qualys), (.netwitness, [], Configurations.netwitness),
   (.powershell, ["csv"], Configurations.powershell), (.wdatp, [], .map [])]

def siemSession (rules : List Value) (k : TargetKind) (options : List String)
    (document : Value) : Except Fault Session := do
  let (made, s) := FaultM.start (do
    addTarget "siem" k options
    parseRules 0 rules) (← sessionOf document)
  made
  return s

def siemSetup (n : Nat) : Except Fault (List Session) :=
  siemTargets.mapM fun (k, options, document) => siemSession (Corpus.rules n) k options document

/-- The queries of several sessions for the same rules. -/
def siemQueries (rules : List String) :
    List Session → Except Fault (List (List (Option String)) × List Session)
  | [] => .ok ([], [])
  | s :: rest => do
    let (made, s) := FaultM.start (queries "siem" rules) s
    let column ← made
    let (columns, rest) ← siemQueries rules rest
    return (column :: columns, s :: rest)

/-- The items of several lists in turn: first all first ones, then all second ones. -/
def interleave {α : Type} (lists : List (List α)) (length : Nat) : List α :=
  (List.range length).flatMap fun i => lists.filterMap fun l => l[i]?

/-- Converts the corpus for security operation centers. -/
def siem (n : Nat) : FaultM (List Session) (List Value) := do
  let rules := ruleNames n
  let (columns, sessions) ← FaultM.ofExcept (siemQueries rules (← get))
  set sessions
  let fields := sorted (DefenderAtp.fieldRules.map fun r => r.1.name)
  let remote ← FaultM.ofExcept (DefenderAtp.logonType (.int 10))
  let unknown := match DefenderAtp.logonType (.int 99) with
    | .ok s => s
    | .error _ => "unsupported"
  return [.text fields.display] ++ (interleave columns rules.length).map shown ++
    [.text remote, .text unknown]

end SigmaQuery.Workload
