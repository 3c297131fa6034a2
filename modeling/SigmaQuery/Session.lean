import SigmaQuery.Target.Basic

/-!
# Sessions

A session has one configuration, and rules and targets under names. A rule may be parsed again from
its own document, which by then may hold entries that a target filled in; both rules then have the one
document. What the conditions of a log source lose while one rule is parsed is lost in the searches of
all rules.
-/

namespace SigmaQuery

/-- A rule of a session, with the number of its document. -/
structure SessionRule where
  document : Nat
  rule : Rule
deriving Inhabited

structure Session where
  config : Config
  documents : List Value := []
  rules : List (Key × SessionRule) := []
  targets : List (Key × Target) := []
deriving Inhabited

abbrev SessionM := FaultM Session

namespace Session

/-- A computation on the configuration of the session. -/
def configure {α : Type} (m : ConfigM α) : SessionM α :=
  FaultM.zoom Session.config (fun c s => { s with config := c }) m

def named {α : Type} (name : String) (entries : List (Key × α)) : SessionM α :=
  match lookup (.text name) entries with
  | some a => return a
  | none => throw .noKey

def target (name : String) : SessionM Target := do
  named name (← get).targets

def setTarget (name : String) (t : Target) : SessionM Unit :=
  modify fun s => { s with targets := put (.text name) t s.targets }

/-- The rule with a name, with its document and its searches as they are now. -/
def rule (name : String) : SessionM SessionRule := do
  let s ← get
  let r ← named name s.rules
  let document := (s.documents[r.document]?).getD r.rule.document
  return { r with rule := { r.rule.current s.config with document } }

/-- Sets the rule with a name, and its document. -/
def setRule (name : String) (r : SessionRule) : SessionM Unit :=
  modify fun s =>
    { s with
      documents := s.documents.set r.document r.rule.document
      rules := put (.text name) r s.rules }

def parse (name : String) (document : Value) : SessionM Rule := do
  let r ← configure (Rule.parse document)
  let s ← get
  set { s with documents := s.documents ++ [document] }
  setRule name ⟨s.documents.length, r⟩
  return r

/-- Parses a rule from the document of another rule. -/
def reparse (name source : String) : SessionM Rule := do
  let old ← rule source
  let r ← configure (Rule.parse old.rule.document)
  setRule name ⟨old.document, r⟩
  return r

def generate (targetName ruleName : String) : SessionM (Option String) := do
  let t ← target targetName
  let r ← rule ruleName
  let g := t.generate (← get).config r.rule
  setTarget targetName g.target
  setRule ruleName { r with rule := g.rule }
  FaultM.ofExcept g.result

/-- The output of a target for all its rules. -/
def finalize (name : String) : SessionM (Option String) := do
  let (result, t) := (← target name).finalize
  setTarget name t
  FaultM.ofExcept result

/-- Changes the aggregation of every condition, up to the first condition without one. -/
def changeAggregations (change : Aggregation → Aggregation) :
    List ParsedCondition → Except Fault Unit × List ParsedCondition
  | [] => (.ok (), [])
  | p :: rest => match p.aggregation with
    | none => (.error .noPart, p :: rest)
    | some a =>
      let (result, rest) := changeAggregations change rest
      (result, { p with aggregation := some (change a) } :: rest)

def changeRule (name : String) (change : Aggregation → Aggregation) : SessionM Unit := do
  let r ← rule name
  let (result, conditions) := changeAggregations change r.rule.conditions
  setRule name { r with rule := { r.rule with conditions } }
  FaultM.ofExcept result

end Session

end SigmaQuery
