import SigmaQuery.Condition.Simplify
import SigmaQuery.Config.LogSource

/-!
# Configurations

A configuration maps the fields of rules to those of a target and describes the log sources of an
environment. Its log sources are read when a target is chosen, because the target says which field
tells indices apart. They are read anew for each further target and added to those that are there.

The conditions of a log source are shared by the trees of all its rules. The configuration keeps what
they have lost, so that a tree can be brought up to date.
-/

namespace SigmaQuery

structure Config where
  /-- The document, if there is one. -/
  document : Option Value := none
  fieldMappings : List (Key × Option FieldMapping) := []
  logSources : List LogSource := []
  merging : Value := .text "and"
  defaultIndex : Value := .null
  /-- The field that tells the target's indices apart. -/
  indexField : Option String := none
  /-- What the conditions of the log sources have lost, in its order. -/
  losses : List Loss := []
deriving Repr, Inhabited

/-- A computation that reads and changes a configuration. What it changes before a fault stays. -/
abbrev ConfigM := FaultM Config

namespace Config

def empty : Config := {}

def readMappings : Entries → Except Fault (List (Key × Option FieldMapping))
  | [] => .ok []
  | (k, target) :: rest => match FieldMapping.ofTarget k.toValue target with
    | .error e => .error e
    | .ok m => (readMappings rest).map ((k, m) :: ·)

def mappingsOf (entries : Entries) : Except Fault (List (Key × Option FieldMapping)) :=
  match lookup (.text "fieldmappings") entries with
  | none => .ok []
  | some (.map fields) => readMappings fields
  | some _ => .error .noPart

def ofDocument : Value → Except Fault Config
  | .map entries =>
    (mappingsOf entries).map fun fieldMappings =>
      { document := some (.map entries)
        fieldMappings
        merging := (lookup (.text "logsourcemerging") entries).getD (.text "and")
        defaultIndex := (lookup (.text "defaultindex") entries).getD .null }
  | _ => .error .wrongType

/-! ## Field mappings -/

/-- The mapping of a field; a field without one is mapped to itself. -/
def fieldMapping (c : Config) (field : Value) : Except Fault (Option FieldMapping) :=
  match field.keyUse with
  | .unusable => .error .wrongType
  | .unmatched => FieldMapping.ofTarget field .null
  | .key k => match lookup k c.fieldMappings with
    | some m => .ok m
    | none => FieldMapping.ofTarget field .null

/-- The name or the names that a field is mapped to. -/
def fieldName (c : Config) (field : Value) : Except Fault Value :=
  match c.fieldMapping field with
  | .error e => .error e
  | .ok none => .error .noPart
  | .ok (some m) => .ok (m.fieldName field)

/-- Keeps a changed mapping of a field. A field without a mapping of its own gets none. -/
def setMapping (c : Config) (field : Value) (m : FieldMapping) : Config :=
  match field.keyUse with
  | .key k => match lookup k c.fieldMappings with
    | some _ => { c with fieldMappings := put k (some m) c.fieldMappings }
    | none => c
  | _ => c

/-- The search for a value in a field of a rule with the given values. -/
def resolve (field value : Value) (values : FieldValues) : ConfigM Cond := do
  let c ← get
  match c.fieldMapping field with
  | .error e => throw e
  | .ok none => throw .noPart
  | .ok (some m) => match m.resolve field value values with
    | .error e => throw e
    | .ok (cond, m) =>
      set (c.setMapping field m)
      return cond

/-! ## Log sources -/

/-- Adds the log sources of a document, in their order. -/
def addLogSources : Entries → ConfigM Unit
  | [] => pure ()
  | (name, v) :: rest => do
    let c ← get
    match LogSource.ofValue (some c.logSources.length) v c.defaultIndex name.toValue c.merging
        c.indexField with
    | .error e => throw e
    | .ok s =>
      set { c with logSources := c.logSources ++ [s] }
      addLogSources rest

/-- Chooses a target whose indices are told apart by a field. -/
def chooseTarget (indexField : Option String) : ConfigM Unit := do
  modify fun c => { c with indexField }
  match (← get).document with
  | none => pure ()
  | some document => match document.get? (.text "logsources") with
    | none => pure ()
    | some (.map entries) => addLogSources entries
    | some _ => throw (.config .logSourcesNotMap)

/-- The merge of all log sources that are the one searched for. -/
def logSource (c : Config) (category product service : Value) : Except Fault LogSource :=
  LogSource.merge (c.logSources.filter fun s =>
    s.matches? category product service == some true) c.defaultIndex .null (.text "and")

/-- The log source of a rule document; none if the rule names no log source. -/
def logSourceOf (c : Config) (document : Value) : Except Fault (Option LogSource) :=
  match document with
  | .map entries => match lookup (.text "logsource") entries with
    | none => .ok none
    | some (.map source) =>
      let named := fun k => (lookup (.text k) source).getD .null
      (c.logSource (named "category") (named "product") (named "service")).map some
    | some _ => .error .wrongType
  | _ => .error .wrongType

/-! ## Shared conditions -/

/-- The configuration after further losses. -/
def lose (c : Config) (ls : List Loss) : Config :=
  { c with
    losses := c.losses ++ ls
    logSources := c.logSources.map fun s => { s with conditions := s.conditions.map (·.after ls) } }

def current (c : Config) (t : Cond) : Cond :=
  t.after c.losses

/-- Simplifies a tree. What the conditions of log sources lose by it, also before a fault, is lost
for the configuration. -/
def simplify (t : Cond) : ConfigM Cond := do
  let (result, ls) := ((← get).current t).simplified
  modify (·.lose ls)
  FaultM.ofExcept result

end Config

end SigmaQuery
