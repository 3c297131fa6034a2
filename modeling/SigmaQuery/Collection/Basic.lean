import SigmaQuery.Collection.Section
import SigmaQuery.Rule.Filter
import SigmaQuery.Target.Basic

/-!
# Collections

A collection is a list of rules made from a list of documents. A document may be a rule, or it may
act on the documents after it:

* `global`: its entries are merged into every rule that follows;
* `reset`: the entries of all global documents so far are forgotten;
* `repeat`: the rule before it is made once more with its entries merged in.

The documents of the rules share sections, so a later document may change the document of an earlier
rule. The searches of a rule have the fields of its document at the time it was parsed; but where the
value of a field is a map, it is a section, and a later change is seen in the searches too.
-/

namespace SigmaQuery

/-- What a document of a collection does. -/
inductive DocumentAction where
  | rule
  | global
  | reset
  | again
deriving Repr, DecidableEq, Inhabited

/-- A rule of a collection, with the sections of its document. -/
structure CollectedRule where
  sections : Sections
  rule : Rule
  /-- The configuration before the rule was parsed. -/
  start : Config := .empty
  /-- The definitions with the fields that they had when the rule was parsed. The maps among the values
  of the fields are as they are now. -/
  definitions : Sections := []
deriving Inhabited

/-- The state of a collection while it is read. -/
structure Collection where
  globals : Sections := []
  rules : List CollectedRule := []
deriving Inhabited

namespace CollectedRule

/-- The document of the rule as it is now. -/
def document (r : CollectedRule) : Value :=
  .map (Section.toEntries r.sections)

/-- The rule with its document as it is now. -/
def current (r : CollectedRule) : Rule :=
  { r.rule with document := r.document }

/-- The rule after a change in another document. -/
def refresh (changed : Sections) (r : CollectedRule) : CollectedRule :=
  { r with
    sections := Section.refreshAll changed r.sections
    definitions := Section.refreshBelow (Section.entriesAt "detection" changed) r.definitions }

/-- The rule with its searches as they are now. Only where a field has a map as its value do they
depend on what came after the rule, and no fault does. -/
def withSearches (config : Config) (r : CollectedRule) : CollectedRule :=
  if r.definitions.any fun e => e.2.hasMap then
    let detection := { r.rule.detection with definitions := Section.toEntries r.definitions }
    match (FaultM.start (Rule.parseOver r.rule.document detection) r.start).1 with
    | .ok rule => { r with rule := rule.current config }
    | .error _ => { r with rule := r.rule.current config }
  else { r with rule := r.rule.current config }

end CollectedRule

namespace DocumentAction

/-- The action that an entry of a document names. -/
def ofValue : Option Value → DocumentAction
  | some (.text "global") => .global
  | some (.text "reset") => .reset
  | some (.text "repeat") => .again
  | _ => .rule

/-- The action of a document, and its other entries. -/
def split : Value → Except Fault (DocumentAction × Entries)
  | .map entries =>
    .ok (ofValue (lookup (.text "action") entries), remove (.text "action") entries)
  | _ => .error .wrongType

end DocumentAction

namespace Collection

/-- Carries a change in one document over to all others. -/
def refresh (changed : Sections) (c : Collection) : Collection where
  globals := Section.refreshAll changed c.globals
  rules := c.rules.map (·.refresh changed)

/-- Merges a document into the entries for the rules that follow. -/
def addGlobals (document : Sections) (c : Collection) : Collection :=
  let globals := Section.mergeAll c.globals document
  { c.refresh globals with globals }

/-- The document of the last rule with the entries of another one merged in. -/
def repeated? (document : Sections) (c : Collection) : Option Sections :=
  c.rules.getLast?.map fun r => Section.mergeAll r.sections document

/-- A rule filter's verdict on a document; without a filter every document passes. -/
def passes (f : Option RuleFilter) (wanted : Bool) (document : Sections) : Except Fault Bool :=
  match f with
  | none => .ok true
  | some f => (f.accepts (.map (Section.toEntries document))).map (· == wanted)

/-- Parses a document and adds it as a rule. -/
def addRule (document : Sections) (c : Collection) : ConfigM Collection := do
  let start ← get
  let rule ← Rule.parse (.map (Section.toEntries document))
  let definitions := remove (.text "condition") (Section.entriesAt "detection" document)
  return { c with rules := c.rules ++ [{ sections := document, rule, start, definitions }] }

/-- Reads the document with a number. A rule is kept if it passes the filter, and a repeated rule is
kept if it does not. -/
def add (f : Option RuleFilter) (number : Nat) (document : Value) (c : Collection) :
    ConfigM Collection := do
  let (action, entries) ← FaultM.ofExcept (DocumentAction.split document)
  let document := Section.ofEntries number entries
  match action with
  | .global => return c.addGlobals document
  | .reset => return { c with globals := [] }
  | .again => match c.repeated? document with
    | none => throw .noName
    | some document =>
      let c := c.refresh document
      if ← FaultM.ofExcept (passes f false document) then c.addRule document else return c
  | .rule =>
    let document := Section.mergeAll document c.globals
    if ← FaultM.ofExcept (passes f true document) then c.addRule document else return c

/-- Reads documents, numbered from a first number on. -/
def addEach (f : Option RuleFilter) : Nat → List Value → Collection → ConfigM Collection
  | _, [], c => return c
  | number, document :: rest, c => do
    addEach f (number + 1) rest (← c.add f number document)

/-- The collection with the searches of its rules as they are now. -/
def current (config : Config) (c : Collection) : Collection :=
  { c with rules := c.rules.map (·.withSearches config) }

def parse (f : Option RuleFilter) (documents : List Value) : ConfigM Collection := do
  let c ← addEach f 0 documents {}
  return c.current (← get)

def documents (c : Collection) : List Value :=
  c.rules.map (·.document)

/-! ## Generation -/

/-- Makes the queries of rules, one after another, up to the first fault. What a target fills in
becomes part of the document, and so of all documents that share the section. -/
def generateEach (config : Config) :
    (n : Nat) → List CollectedRule → Target → Except Fault (List (Option String)) × Target
  | 0, _, t => (.ok [], t)
  | _ + 1, [], t => (.ok [], t)
  | n + 1, r :: rest, t =>
    let g := t.generate config r.current
    let filled := match g.rule.document with
      | .map entries => Section.mergeAll r.sections (Section.ofEntries 0 entries)
      | _ => r.sections
    match g.result with
    | .error e => (.error e, g.target)
    | .ok q =>
      let (result, t) := generateEach config n (rest.map (·.refresh filled)) g.target
      (result.map (q :: ·), t)

/-- The queries that a target makes from the rules; empty ones are left out. -/
def generate (config : Config) (t : Target) (c : Collection) :
    Except Fault (List String) × Target :=
  let (result, t) := generateEach config c.rules.length c.rules t
  (result.map fun qs => qs.filterMap fun q => q.filter (· != ""), t)

end Collection

end SigmaQuery
