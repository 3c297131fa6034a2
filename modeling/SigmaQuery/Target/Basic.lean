import SigmaQuery.Target.ArcSight
import SigmaQuery.Target.Elastic.ChainedWatcher
import SigmaQuery.Target.FieldList
import SigmaQuery.Target.Graylog
import SigmaQuery.Target.Grep
import SigmaQuery.Target.Kind
import SigmaQuery.Target.LogPoint
import SigmaQuery.Target.NetWitness
import SigmaQuery.Target.QRadar
import SigmaQuery.Target.Qualys
import SigmaQuery.Target.Splunk
import SigmaQuery.Target.SumoLogic

/-!
# Targets

A target is one of its kinds with the state of that kind. It is made for a configuration, makes
queries from rules and ends with an output for all of them.
-/

namespace SigmaQuery

/-- A target. -/
inductive Target where
  | arcsight (t : ArcSight)
  | esQs (t : Elastic.QueryString)
  | esDsl (t : Elastic.SearchRequest)
  | kibana (t : Elastic.Kibana)
  | watcher (t : Elastic.Watcher)
  | elastalert (t : Elastic.Elastalert)
  | graylog (t : TextQuery)
  | logpoint (t : TextQuery)
  | grep (t : Grep)
  | netwitness (t : TextQuery)
  | powershell (t : PowerShell)
  | qradar (t : TextQuery)
  | qualys (t : Qualys)
  | splunk (t : TextQuery)
  | splunkXml (t : SplunkDashboard)
  | sumologic (t : TextQuery)
  | fieldList (t : FieldList)
  | wdatp (t : DefenderAtp)
  | chainedWatcher (t : Elastic.ChainedWatcher)
deriving Repr, Inhabited

namespace Target

def ofKind (k : TargetKind) (o : Options) (c : Config) : Except Fault Target :=
  match k with
  | .arcsight => (ArcSight.new o c).map .arcsight
  | .esQs => .ok (.esQs (.new o))
  | .esDsl => .ok (.esDsl (.new o))
  | .kibana => .ok (.kibana (.new o))
  | .watcher => .ok (.watcher (.new o))
  | .elastalert => .ok (.elastalert (.new o))
  | .graylog => .ok (.graylog ⟨o, Graylog.dialect⟩)
  | .logpoint => .ok (.logpoint ⟨o, LogPoint.dialect⟩)
  | .grep => .ok (.grep ⟨o⟩)
  | .netwitness => .ok (.netwitness ⟨o, NetWitness.dialect⟩)
  | .powershell => .ok (.powershell { query := ⟨o, PowerShell.dialect⟩ })
  | .qradar => .ok (.qradar ⟨o, QRadar.dialect⟩)
  | .qualys => (Qualys.new o c).map .qualys
  | .splunk => .ok (.splunk ⟨o, Splunk.dialect⟩)
  | .splunkXml => .ok (.splunkXml (.new o))
  | .sumologic => .ok (.sumologic ⟨o, SumoLogic.dialect⟩)
  | .fieldList => .ok (.fieldList { options := o })
  | .wdatp => .ok (.wdatp (.new o))
  | .chainedWatcher => .ok (.chainedWatcher (.new o))

/-- Makes a target for a configuration, which is told of it first. -/
def new (k : TargetKind) (o : Options) : ConfigM Target := do
  Config.chooseTarget k.indexField
  FaultM.ofExcept (ofKind k (o.withDefaults k.optionSpecs) (← get))

def kind : Target → TargetKind
  | .arcsight _ => .arcsight
  | .esQs _ => .esQs
  | .esDsl _ => .esDsl
  | .kibana _ => .kibana
  | .watcher _ => .watcher
  | .elastalert _ => .elastalert
  | .graylog _ => .graylog
  | .logpoint _ => .logpoint
  | .grep _ => .grep
  | .netwitness _ => .netwitness
  | .powershell _ => .powershell
  | .qradar _ => .qradar
  | .qualys _ => .qualys
  | .splunk _ => .splunk
  | .splunkXml _ => .splunkXml
  | .sumologic _ => .sumologic
  | .fieldList _ => .fieldList
  | .wdatp _ => .wdatp
  | .chainedWatcher _ => .chainedWatcher

def options : Target → Options
  | .arcsight t => t.query.options
  | .esQs t => t.query.options
  | .esDsl t => t.options
  | .kibana t => t.options
  | .watcher t => t.base.query.options
  | .elastalert t => t.base.query.options
  | .graylog t => t.options
  | .logpoint t => t.options
  | .grep t => t.options
  | .netwitness t => t.options
  | .powershell t => t.query.options
  | .qradar t => t.options
  | .qualys t => t.query.options
  | .splunk t => t.options
  | .splunkXml t => t.query.options
  | .sumologic t => t.options
  | .fieldList t => t.options
  | .wdatp t => t.query.options
  | .chainedWatcher t => t.base.query.options

/-- The query string that is a part of the target. -/
def queryString? : Target → Option Elastic.QueryString
  | .esQs t => some t
  | .kibana t => some t.base
  | .watcher t => some t.base
  | .elastalert t => some t.base
  | .chainedWatcher t => some t.base
  | _ => none

/-- Replaces the query string that is a part of the target. -/
def setQueryString (q : Elastic.QueryString) : Target → Target
  | .esQs _ => .esQs q
  | .kibana t => .kibana { t with base := q }
  | .watcher t => .watcher { t with base := q }
  | .elastalert t => .elastalert { t with base := q }
  | .chainedWatcher t => .chainedWatcher { t with base := q }
  | t => t

/-- What is known about keyword fields, for a target of Elasticsearch. -/
def keywords? : Target → Option Elastic.Keywords
  | .esDsl t => some t.keywords
  | t => t.queryString?.map (·.keywords)

/-- Replaces what is known about keyword fields. -/
def setKeywords (k : Elastic.Keywords) : Target → Target
  | .esDsl t => .esDsl { t with keywords := k }
  | t => match t.queryString? with
    | some q => t.setQueryString { q with keywords := k }
    | none => t

/-- The text query that is a part of the target. -/
def textQuery? : Target → Option TextQuery
  | .arcsight t => some t.query
  | .graylog t => some t
  | .logpoint t => some t
  | .netwitness t => some t
  | .powershell t => some t.query
  | .qradar t => some t
  | .qualys t => some t.query
  | .splunk t => some t
  | .splunkXml t => some t.query
  | .sumologic t => some t
  | .wdatp t => some t.query
  | t => t.queryString?.map (·.query)

/-- Replaces the text query that is a part of the target. -/
def setTextQuery (q : TextQuery) : Target → Target
  | .arcsight t => .arcsight { t with query := q }
  | .graylog _ => .graylog q
  | .logpoint _ => .logpoint q
  | .netwitness _ => .netwitness q
  | .powershell t => .powershell { t with query := q }
  | .qradar _ => .qradar q
  | .qualys t => .qualys { t with query := q }
  | .splunk _ => .splunk q
  | .splunkXml t => .splunkXml { t with query := q }
  | .sumologic _ => .sumologic q
  | .wdatp t => .wdatp { t with query := q }
  | t => match t.queryString? with
    | some s => t.setQueryString { s with query := q }
    | none => t

/-! ## Single steps -/

/-- The way in which a target cleans texts, if it cleans any. -/
def clean? : Target → Option (String → String)
  | .arcsight _ => none
  | .qualys _ => none
  | .esDsl _ => none
  | .fieldList _ => none
  | .graylog _ => some Graylog.escape.text
  | .grep _ => some Grep.clean
  | .netwitness _ => some Text.plainQuoteEscape.text
  | .qradar _ => some Text.plainQuoteEscape.text
  | .powershell _ => some PowerShell.escape.text
  | .logpoint _ => some Text.quoteEscape.text
  | .splunk _ => some Text.quoteEscape.text
  | .splunkXml _ => some Text.quoteEscape.text
  | .sumologic _ => some Text.quoteEscape.text
  | .wdatp _ => some Text.quoteEscape.text
  | _ => some Elastic.QueryString.escape.text

/-- A cleaned value. A target without texts has nothing to clean. -/
def cleanValue (t : Target) (v : Value) : Except Fault Value :=
  match t with
  | .esDsl _ => .error .noPart
  | .fieldList _ => .error .noPart
  | _ => match t.clean?, v with
    | none, _ => .ok v
    | some f, .text s => .ok (.text (f s))
    | some _, _ => .error .wrongType

/-- What a target makes of a missing aggregation: an empty text, nothing, or a fault. -/
def missingAggregation : Target → Except Fault (Option String)
  | .esDsl _ => .ok none
  | .elastalert _ => .ok none
  | .logpoint _ => .ok (some "")
  | .powershell _ => .ok (some "")
  | .qradar _ => .ok (some "")
  | .splunk _ => .ok (some "")
  | .splunkXml _ => .ok (some "")
  | .sumologic _ => .ok (some "")
  | .fieldList _ => .error .noPart
  | _ => .error (.unoffered .aggregation)

/-! ## Work -/

/-- The outcome of a computation of a kind of target, as a target. -/
def lift {σ α β : Type} (back : σ → Target) (f : α → β) (m : FaultM σ α) (s : σ) :
    Except Fault β × Target :=
  let (result, s) := m.start s
  (result.map f, back s)

/-- Applies a renderer of a target that writes text, whatever its state is. -/
def withRenderer {α : Type} (t : Target) (other : Except Fault α)
    (use : {σ : Type} → Renderer σ → FaultM σ α) : Except Fault α × Target :=
  match t with
  | .arcsight s => lift .arcsight id (use (ArcSight.renderer s.query.dialect s.allowed)) s
  | .graylog s => lift .graylog id (use (Graylog.renderer s.dialect)) s
  | .logpoint s => lift .logpoint id (use (LogPoint.renderer s.dialect)) s
  | .netwitness s => lift .netwitness id (use (NetWitness.renderer s.dialect)) s
  | .powershell s => lift .powershell id (use (PowerShell.renderer s.query.dialect)) s
  | .qradar s => lift .qradar id (use (QRadar.renderer s.dialect)) s
  | .qualys s => lift .qualys id (use (Qualys.renderer s.query.dialect s.allowed)) s
  | .splunk s => lift .splunk id (use (Splunk.renderer true s.dialect)) s
  | .splunkXml s => lift .splunkXml id (use (Splunk.renderer false s.query.dialect)) s
  | .sumologic s => lift .sumologic id (use (SumoLogic.renderer s.dialect)) s
  | .wdatp s => lift .wdatp id (use (DefenderAtp.renderer s.query.dialect)) s
  | t => match t.queryString? with
    | some q =>
      lift (fun q => t.setQueryString q) id (use (Elastic.QueryString.renderer q.query.dialect)) q
    | none => (other, t)

/-- The text of a tree, or what the target makes of it instead. -/
def render (c : Cond) (t : Target) : Except Fault Value × Target :=
  match t with
  | .esDsl s => lift .esDsl id (Elastic.SearchRequest.render c) s
  | .grep _ => ((Grep.render c).map .text, t)
  | .fieldList _ => (FieldList.render c, t)
  | _ =>
    let (result, t) := t.withRenderer (.ok none) fun r => r.render c
    (result.map optionValue, t)

/-- What the target makes of a list of values. -/
def renderList (v : Value) (t : Target) : Except Fault Value × Target :=
  match t with
  | .esDsl s => (.error (.unoffered (.listNode s.title)), t)
  | _ => match v.elements with
    | .error e => (.error e, t)
    | .ok vs => match t with
      | .grep _ => ((Grep.valueText (.list vs)).map .text, t)
      | .fieldList _ => (FieldList.listFields vs, t)
      | _ =>
        let (result, t) := t.withRenderer (.ok none) fun r => r.list vs
        (result.map optionValue, t)

/-- What the target makes of a field with a list of values. -/
def renderItemList (field v : Value) (t : Target) : Except Fault Value × Target :=
  let (result, t) := t.withRenderer (.error .noPart) fun r => r.itemList field v
  (result.map optionValue, t)

/-- What the target makes of a value of any type. -/
def renderValue (v : Value) (t : Target) : Except Fault Value × Target :=
  match t with
  | .esDsl _ => (.ok (Elastic.SearchRequest.anywhere v), t)
  | .fieldList _ => (.ok (.list []), t)
  | .grep _ => (.ok (.text (Grep.clean v.display)), t)
  | .powershell _ => (.error .wrongType, t)
  | .qradar _ => (.error .wrongType, t)
  | _ =>
    let (result, t) := t.withRenderer (.error .noPart) fun r => r.value v
    (result.map .text, t)

/-- The name of the field in which the target searches for a value. -/
def renderFieldName (field v : Value) (t : Target) : Except Fault Value × Target :=
  match t with
  | .grep _ => (.error .noPart, t)
  | .fieldList _ => (.error .noPart, t)
  | _ => match t.keywords? with
    | some k => lift (fun k => t.setKeywords k) id (Elastic.Keywords.fieldName field v) k
    | none => (.ok field, t)

/-- The outcome of generation: the result, the target and the rule afterwards. -/
structure Generated where
  result : Except Fault (Option String)
  target : Target
  rule : Rule

/-- Runs the generation of a kind of target. -/
def runGeneration {σ : Type} (back : σ → Target) (m : GenerateM σ (Option String)) (s : σ)
    (r : Rule) : Generated :=
  let (result, w) := m.start ⟨s, r⟩
  { result, target := back w.target, rule := w.rule }

def generate (c : Config) (r : Rule) : Target → Generated
  | .arcsight s => runGeneration .arcsight ArcSight.generate s r
  | .esQs s => runGeneration .esQs Elastic.QueryString.generate s r
  | .esDsl s => runGeneration .esDsl (Elastic.SearchRequest.generate c) s r
  | .kibana s => runGeneration .kibana (Elastic.Kibana.generate c) s r
  | .watcher s => runGeneration .watcher (Elastic.Watcher.generate c) s r
  | .elastalert s => runGeneration .elastalert (Elastic.Elastalert.generate c) s r
  | .graylog s => runGeneration .graylog Graylog.generate s r
  | .logpoint s => runGeneration .logpoint LogPoint.generate s r
  | .grep s => runGeneration .grep Grep.generate s r
  | .netwitness s => runGeneration .netwitness NetWitness.generate s r
  | .powershell s => runGeneration .powershell (PowerShell.generate c) s r
  | .qradar s => runGeneration .qradar (QRadar.generate c) s r
  | .qualys s => runGeneration .qualys Qualys.generate s r
  | .splunk s => runGeneration .splunk (Splunk.generate c) s r
  | .splunkXml s => runGeneration .splunkXml SplunkDashboard.generate s r
  | .sumologic s => runGeneration .sumologic SumoLogic.generate s r
  | .fieldList s => runGeneration .fieldList FieldList.generate s r
  | .wdatp s => runGeneration .wdatp DefenderAtp.generate s r
  | .chainedWatcher s => runGeneration .chainedWatcher (Elastic.ChainedWatcher.generate c) s r

/-- The output for all rules, and the target afterwards. Most targets have none. -/
def finalize (t : Target) : Except Fault (Option String) × Target :=
  match t with
  | .esDsl s => (s.finalize, t)
  | .kibana s => match s.finalize with
    | .ok (text, s) => (.ok text, .kibana s)
    | .error e => (.error e, t)
  | .watcher s => (s.finalize.map some, t)
  | .elastalert s => (s.finalize.map some, t)
  | .splunkXml s =>
    let (text, s) := s.finalize
    (.ok (some text), .splunkXml s)
  | .fieldList s => (s.finalize.map some, t)
  | .chainedWatcher s => (.ok (some s.finalize), t)
  | _ => (.ok none, t)

end Target

end SigmaQuery
