import SigmaQuery.Fault
import SigmaQuery.Text.LowerCase

/-!
# Rule filters

A filter expression is a list of conditions, divided by commas, on the level, the status, the log
source and the tags of a rule. Blanks in it do not count. A rule passes if it meets all of them.
-/

namespace SigmaQuery

/-- What a filter asks of a rule. -/
structure RuleFilter where
  minLevel : Option Nat := none
  maxLevel : Option Nat := none
  status : Option String := none
  logSources : List String := []
  tags : List String := []
deriving DecidableEq, Repr, Inhabited

namespace RuleFilter

/-! ## Reading -/

def levels : List String := ["low", "medium", "high", "critical"]

def states : List String := ["experimental", "testing", "stable"]

def levelRank? (level : String) : Option Nat :=
  levels.idxOf? level

/-- The rest of a text after a start that it has. -/
def after? (start text : String) : Option String :=
  if start.toList.isPrefixOf text.toList then
    some (String.ofList (text.toList.drop start.toList.length))
  else none

def readLevel (condition level : String) : Except Fault Nat :=
  match levelRank? level with
  | some n => .ok n
  | none => .error (.filter (.unknownLevel level condition))

def add (f : RuleFilter) (condition : String) : Except Fault RuleFilter :=
  if let some level := after? "level<=" condition then
    (readLevel condition level).map fun n => { f with maxLevel := some n }
  else if let some level := after? "level>=" condition then
    (readLevel condition level).map fun n => { f with minLevel := some n }
  else if let some level := after? "level=" condition then
    (readLevel condition level).map fun n => { f with minLevel := some n, maxLevel := some n }
  else if let some status := after? "status=" condition then
    if states.contains status then .ok { f with status := some status }
    else .error (.filter (.unknownStatus status condition))
  else if let some source := after? "logsource=" condition then
    .ok { f with logSources := f.logSources ++ [source] }
  else if let some tag := after? "tag=" condition then
    .ok { f with tags := f.tags ++ [Text.lower tag] }
  else .error (.filter (.unknownCondition condition))

def addEach (f : RuleFilter) : List String → Except Fault RuleFilter
  | [] => .ok f
  | c :: rest => match f.add c with
    | .error e => .error e
    | .ok f => f.addEach rest

def conditionsOf (expression : String) : List String :=
  (expression.splitOn ",").map fun c => String.ofList (c.toList.filter (· != ' '))

def parse (expression : String) : Except Fault RuleFilter :=
  addEach {} (conditionsOf expression)

/-! ## Matching -/

/-- The rank of a document's level; none if there is no such level. -/
def documentLevel (entries : Entries) : Except Fault (Option Nat) :=
  match lookup (.text "level") entries with
  | some (.text s) => .ok (levelRank? s)
  | some v => if v.hashable then .ok none else .error .wrongType
  | none => .ok none

/-- The document's level is in the bounds of the filter. -/
def levelFits (f : RuleFilter) (entries : Entries) : Except Fault Bool :=
  if f.minLevel.isNone && f.maxLevel.isNone then .ok true
  else (documentLevel entries).map fun
    | none => false
    | some n => f.minLevel.all (· ≤ n) && f.maxLevel.all (n ≤ ·)

/-- The document has the status of the filter. -/
def statusFits (f : RuleFilter) (entries : Entries) : Bool :=
  match f.status with
  | none => true
  | some s => match lookup (.text "status") entries with
    | none => false
    | some v => v.same (.text s)

/-- Each log source of the filter is a value in the log source part of the document. -/
def logSourcesFit (f : RuleFilter) (entries : Entries) : Except Fault Bool :=
  if f.logSources.isEmpty then .ok true
  else match lookup (.text "logsource") entries with
    | some (.map source) =>
      let values := source.map (·.2)
      if values.all Value.hashable then
        .ok (f.logSources.all fun s => (Value.text s).memberOf values)
      else .error .wrongType
    | _ => .ok false

/-- The tags of a document in small letters. A text counts as a list of its characters. -/
def documentTags (entries : Entries) : Except Fault (Option (List String)) :=
  match lookup (.text "tags") entries with
  | none => .ok none
  | some (.text s) => .ok (some (s.toList.map fun c => Text.lower (String.singleton c)))
  | some (.list items) =>
    let texts := items.filterMap Value.text?
    .ok (if texts.length = items.length then some (texts.map Text.lower) else none)
  | some (.map tags) =>
    let texts := tags.filterMap fun
      | (.text s, _) => some s
      | _ => none
    .ok (if texts.length = tags.length then some (texts.map Text.lower) else none)
  | some _ => .error .wrongType

/-- The document has each tag of the filter. -/
def tagsFit (f : RuleFilter) (entries : Entries) : Except Fault Bool :=
  if f.tags.isEmpty then .ok true
  else (documentTags entries).map fun
    | none => false
    | some tags => f.tags.all tags.contains

def isOpen (f : RuleFilter) : Bool :=
  f.minLevel.isNone && f.maxLevel.isNone && f.status.isNone && f.logSources.isEmpty &&
    f.tags.isEmpty

def matchesEntries (f : RuleFilter) (entries : Entries) : Except Fault Bool := do
  if !(← f.levelFits entries) then return false
  if !f.statusFits entries then return false
  if !(← f.logSourcesFit entries) then return false
  f.tagsFit entries

def accepts (f : RuleFilter) : Value → Except Fault Bool
  | .map entries => f.matchesEntries entries
  | _ => if f.isOpen then .ok true else .error .wrongType

end RuleFilter

end SigmaQuery
