import SigmaQuery.Target.DefenderAtp
import SigmaQuery.Target.Elastic.Elastalert
import SigmaQuery.Target.Elastic.Kibana
import SigmaQuery.Target.Elastic.SearchRequest
import SigmaQuery.Target.Elastic.Watcher
import SigmaQuery.Target.PowerShell

/-!
# Kinds of targets

Every kind of target has an identifier, a description and options. Some tell the indices of their log
sources apart by a field.
-/

namespace SigmaQuery

/-- The kinds of targets, in the order in which they are listed. -/
inductive TargetKind where
  | arcsight | esQs | esDsl | kibana | watcher | elastalert | graylog | logpoint | grep | netwitness
  | powershell | qradar | qualys | splunk | splunkXml | sumologic | fieldList | wdatp
  | chainedWatcher
deriving DecidableEq, Repr, Inhabited

namespace TargetKind

def every : List TargetKind :=
  [.arcsight, .esQs, .esDsl, .kibana, .watcher, .elastalert, .graylog, .logpoint, .grep,
   .netwitness, .powershell, .qradar, .qualys, .splunk, .splunkXml, .sumologic, .fieldList,
   .wdatp, .chainedWatcher]

/-- The kinds as they are listed. The query string is listed again before the target that is made
from it in a module of its own. -/
def listed : List TargetKind :=
  every.flatMap fun
    | .chainedWatcher => [.esQs, .chainedWatcher]
    | k => [k]

/-- The name under which a kind is chosen. -/
def identifier : TargetKind → String
  | .arcsight => "arcsight"
  | .esQs => "es-qs"
  | .esDsl => "es-dsl"
  | .kibana => "kibana"
  | .watcher => "xpack-watcher"
  | .elastalert => "elastalert"
  | .graylog => "graylog"
  | .logpoint => "logpoint"
  | .grep => "grep"
  | .netwitness => "netwitness"
  | .powershell => "powershell"
  | .qradar => "qradar"
  | .qualys => "qualys"
  | .splunk => "splunk"
  | .splunkXml => "splunkxml"
  | .sumologic => "sumologic"
  | .fieldList => "fieldlist"
  | .wdatp => "wdatp"
  | .chainedWatcher => "xpack-watcher-sp"

def description : TargetKind → String
  | .arcsight =>
    "Converts Sigma rule into ArcSight saved search. Contributed by SOC Prime. " ++
      "https://socprime.com"
  | .esQs =>
    "Converts Sigma rule into Elasticsearch query string. Only searches, no aggregations."
  | .esDsl => "ElasticSearch DSL backend"
  | .kibana => "Converts Sigma rule into Kibana JSON Configuration files (searches only)."
  | .watcher => "Converts Sigma Rule into X-Pack Watcher JSON for alerting"
  | .elastalert => "Elastalert backend"
  | .graylog => "Converts Sigma rule into Graylog query string. Only searches, no aggregations."
  | .logpoint => "Converts Sigma rule into LogPoint query"
  | .grep => "Generates Perl compatible regular expressions and puts 'grep -P' around it"
  | .netwitness => "Converts Sigma rule into NetWitness saved search. Contributed by @tuckner"
  | .powershell => "Converts Sigma rule into PowerShell event log cmdlets."
  | .qradar =>
    "Converts Sigma rule into Qradar saved search. Contributed by SOC Prime. https://socprime.com"
  | .qualys =>
    "Converts Sigma rule into Qualys saved search. Contributed by SOC Prime. https://socprime.com"
  | .splunk => "Converts Sigma rule into Splunk Search Processing Language (SPL)."
  | .splunkXml => "Converts Sigma rule into XML used for Splunk Dashboard Panels"
  | .sumologic => "Converts Sigma rule into SumoLogic query"
  | .fieldList =>
    "List all fieldnames from given Sigma rules for creation of a field mapping configuration."
  | .wdatp => "Converts Sigma rule into Windows Defender ATP Hunting Queries."
  | .chainedWatcher =>
    "Converts Sigma Rule into X-Pack Watcher JSON for alerting. SOC prime edition"

/-- The field that tells the indices of a target apart. -/
def indexField : TargetKind → Option String
  | .splunk => some "index"
  | .splunkXml => some "index"
  | .sumologic => some "_index"
  | _ => none

def optionSpecs : TargetKind → List OptionSpec
  | .grep => []
  | .fieldList => []
  | .powershell => [PowerShell.csvOption]
  | .esQs => Elastic.keywordOptions
  | .chainedWatcher => Elastic.keywordOptions
  | .esDsl => Elastic.SearchRequest.optionSpecs
  | .kibana => Elastic.Kibana.optionSpecs
  | .watcher => Elastic.Watcher.optionSpecs
  | .elastalert => Elastic.Elastalert.optionSpecs
  | _ => [commentOption]

def ofIdentifier (s : String) : Except Fault TargetKind :=
  match every.find? fun k => k.identifier == s with
  | some k => .ok k
  | none => .error .unknownTarget

end TargetKind

end SigmaQuery
