import SigmaQuery.Collection.Basic
import SigmaQuery.Command.Arguments
import SigmaQuery.Command.Files

/-!
# Conversion

The conversion reads a configuration and files with rules, and prints the queries of a target. Faults
in rules are told on the error stream; each sort of fault has an exit code. Some of them end the
conversion, unless the arguments ask to go on. A fault of any other sort is the outcome of the whole
conversion.
-/

namespace SigmaQuery

/-- What has been printed. With an output file the queries go there. -/
structure Console where
  out : String := ""
  err : String := ""
  file : Option String := none
deriving Repr, Inhabited

namespace Console

def say (line : String) (c : Console) : Console :=
  { c with out := c.out ++ line ++ "\n" }

def complain (line : String) (c : Console) : Console :=
  { c with err := c.err ++ line ++ "\n" }

def print (query : String) (c : Console) : Console :=
  match c.file with
  | some text => { c with file := some (text ++ query ++ "\n") }
  | none => c.say query

end Console

/-- The end of a command: its exit code and what it printed. -/
structure Outcome where
  exit : Nat
  console : Console := {}
deriving Repr, Inhabited

/-- What is wrong with an input. -/
inductive InputFault where
  | file (f : FileFault)
  | malformed (reason : String)
  | rule (f : Fault)

/-- What is told about a fault. -/
structure Complaint where
  lines : List String
  code : Nat
  /-- The fault ends the conversion unless it is to go on. -/
  aborts : Bool := true
  /-- The fault is one of the target, which may be ignored. -/
  ofTarget : Bool := false
deriving Repr, Inhabited

namespace InputFault

/-- The complaint about a fault in the file with a path. There is none for faults that nobody
expects. -/
def complaint? (path : String) : InputFault → Except Fault Complaint
  | .file f => .ok
    { lines := ["Failed to open Sigma file " ++ path ++ ": " ++ f.message path],
      code := 5, aborts := false }
  | .malformed reason => .ok
    { lines := ["Sigma file " ++ path ++ " is no valid YAML: " ++ reason], code := 3 }
  | .rule (.parse f) => .ok
    { lines := ["Sigma parse error in " ++ path ++ ": " ++ f.message], code := 4 }
  | .rule (.unsupported f) => .ok
    { lines := ["The Sigma rule requires a feature that is not supported by the target system: " ++
        f.message],
      code := 9, ofTarget := true }
  | .rule (.unoffered f) => .ok
    { lines := ["An unsupported feature is required for this Sigma rule: " ++ f.message,
        "Feel free to contribute for fun and fame, this is open source :) -> " ++
          "https://github.com/Neo23x0/sigma"],
      code := 42, ofTarget := true }
  | .rule (.partialMatch q) => .ok
    { lines := ["Partial field match error: " ++ q.getD "None"], code := 80, ofTarget := true }
  | .rule (.fullMatch _) => .ok
    { lines := ["Full field match error"], code := 90, ofTarget := true }
  | .rule f => .error f

end InputFault

namespace Convert

/-- The state of a conversion. -/
structure State where
  config : Config
  target : Target
  console : Console := {}
  exit : Nat := 0

/-- The queries of a file, with the configuration and the target afterwards. -/
def queriesOf (files : FileTree) (f : Option RuleFilter) (path : String) (c : Config)
    (t : Target) : Except InputFault (List String) × Config × Target :=
  match files.read path with
  | .error e => (.error (.file e), c, t)
  | .ok (.malformed reason) => (.error (.malformed reason), c, t)
  | .ok (.document v) => match v.elements with
    | .error e => (.error (.rule e), c, t)
    | .ok documents =>
      let (parsed, c) := FaultM.start (Collection.parse f documents) c
      match parsed with
      | .error e => (.error (.rule e), c, t)
      | .ok rules =>
        let (result, t) := rules.generate c t
        (result.mapError .rule, c, t)

/-- The state after a complaint, and whether the conversion goes on. -/
def complain (a : Arguments) (p : Complaint) (s : State) : State × Bool :=
  let console := p.lines.foldl (fun c line => c.complain line) s.console
  if p.ofTarget && a.ignoreTargetFaults then ({ s with console }, true)
  else ({ s with console, exit := p.code }, !p.aborts || a.deferAbort)

def convertFile (a : Arguments) (files : FileTree) (f : Option RuleFilter) (path : String)
    (s : State) : Except Fault (State × Bool) :=
  let started := if a.verbose || a.debug
    then s.console.say ("* Processing Sigma input " ++ path) else s.console
  let (result, config, target) := queriesOf files f path s.config s.target
  let s := { s with config, target, console := started }
  match result with
  | .ok queries => .ok ({ s with console := queries.foldl (fun c q => c.print q) s.console }, true)
  | .error e => (e.complaint? path).map fun p => complain a p s

/-- Converts files up to the first one that ends the conversion. -/
def convertEach (a : Arguments) (files : FileTree) (f : Option RuleFilter) :
    List String → State → Except Fault (State × Bool)
  | [], s => .ok (s, true)
  | path :: rest, s => match convertFile a files f path s with
    | .error e => .error e
    | .ok (s, false) => .ok (s, false)
    | .ok (s, true) => convertEach a files f rest s

def finish (s : State) : Except Fault Outcome :=
  match s.target.finalize.1 with
  | .error e => .error e
  | .ok none => .ok ⟨s.exit, s.console⟩
  | .ok (some text) =>
    .ok ⟨s.exit, if text == "" then s.console else s.console.print text⟩

def pathsOf (a : Arguments) (files : FileTree) (path : String) : Except Fault (List String) :=
  if a.recurse then
    match files.walk path with
    | .ok paths => .ok paths
    | .error .notDirectory => .error .notDirectory
    | .error _ => .error .noFile
  else .ok [Path.normalized path]

def inputPaths (a : Arguments) (files : FileTree) : List String → Except Fault (List String)
  | [] => .ok []
  | path :: rest => match pathsOf a files path with
    | .error e => .error e
    | .ok paths => (inputPaths a files rest).map (paths ++ ·)

def given (value : Option String) : Option String :=
  value.filter (· != "")

/-- The configuration in a file, or the outcome if there is none in it. -/
def readConfig (files : FileTree) (path : String) : Except Fault (Except Outcome Config) :=
  let failed := fun (code : Nat) (line : String) =>
    Except.ok (Except.error ⟨code, ({} : Console).complain line⟩)
  match files.read path with
  | .error e =>
    failed 5 ("Failed to open Sigma configuration file " ++ path ++ ": " ++ e.message path)
  | .ok (.malformed reason) =>
    failed 6 ("Sigma configuration file " ++ path ++ " is no valid YAML: " ++ reason)
  | .ok (.document v) => match Config.ofDocument v with
    | .ok c => .ok (.ok c)
    | .error (.config e) =>
      failed 7 ("Sigma configuration parse error in " ++ path ++ ": " ++ e.message)
    | .error e => .error e

def runWith (a : Arguments) (files : FileTree) (f : Option RuleFilter) (c : Config) :
    Except Fault Outcome := do
  let options ← Options.readEach [] (a.options.map .text)
  let (made, config) := FaultM.start (Target.new a.target options) c
  let target ← made
  let console : Console ← match given a.output with
    | none => .ok {}
    | some path => match files.write path with
      | .ok () => .ok { file := some "" }
      | .error e =>
        return ⟨1, ({} : Console).complain
          ("Failed to open output file '" ++ path ++ "': " ++ e.message path)⟩
  let paths ← inputPaths a files a.inputs
  let (s, goesOn) ← convertEach a files f paths { config, target, console }
  if goesOn then finish s else return ⟨s.exit, s.console⟩

def runArguments (a : Arguments) (files : FileTree) : Except Fault Outcome := do
  if a.listTargets then return ⟨0, { out := Arguments.targetList }⟩
  else if a.inputs.isEmpty then return ⟨0, { out := "Nothing to do!\n" ++ Arguments.usage }⟩
  else
    let f ← match given a.filter with
      | none => .ok none
      | some expression => (RuleFilter.parse expression).map some
    match given a.config with
    | none => runWith a files f .empty
    | some path => match ← readConfig files path with
      | .error outcome => return outcome
      | .ok c => runWith a files f c

/-- The paths that a conversion reads from. -/
def sources (a : Arguments) : List String :=
  (given a.config).toList ++ a.inputs

/-- Carries out a conversion with arguments as they are given. -/
def run (arguments : List String) (files : FileTree) : Except Fault Outcome :=
  match Arguments.read arguments with
  | .error .help => .ok ⟨0, { out := Arguments.help }⟩
  | .error (.usage reason) =>
    .ok ⟨2, { err := Arguments.usage ++ "sigmaquery: error: " ++ reason ++ "\n" }⟩
  | .ok a => runArguments a files

end Convert

end SigmaQuery
