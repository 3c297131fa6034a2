import SigmaQuery.Target.Kind

/-!
# Arguments of the conversion

Arguments are switches, settings with a value, and inputs. A switch or setting has a long name after
two dashes and a letter after one dash. A value follows its setting as the next argument, or directly:
after an equals sign for the long name, after the letter for the short one.
-/

namespace SigmaQuery

/-- What a conversion is asked to do. -/
structure Arguments where
  target : TargetKind := .esQs
  config : Option String := none
  filter : Option String := none
  output : Option String := none
  options : List String := []
  recurse : Bool := false
  listTargets : Bool := false
  deferAbort : Bool := false
  ignoreTargetFaults : Bool := false
  verbose : Bool := false
  debug : Bool := false
  inputs : List String := []
deriving Repr, Inhabited

/-- The end of reading arguments before all are read. -/
inductive ArgumentStop where
  /-- Help is asked for. -/
  | help
  /-- The arguments are wrong. -/
  | usage (reason : String)
deriving Repr, Inhabited

inductive Switch where
  | help | recurse | listTargets | deferAbort | ignoreTargetFaults | verbose | debug
deriving DecidableEq, Repr, Inhabited

/-- The settings with a value. -/
inductive Setting where
  | target | config | filter | output | option
deriving DecidableEq, Repr, Inhabited

/-- A switch or a setting. -/
inductive Flag where
  | switch (s : Switch)
  | setting (s : Setting)
deriving DecidableEq, Repr, Inhabited

/-- A flag with its names and a line of help. -/
structure FlagSpec where
  long : String
  short : Char
  flag : Flag
  help : String
deriving Repr, Inhabited

def flagSpecs : List FlagSpec :=
  [⟨"--help", 'h', .switch .help, "show this help message and exit"⟩,
   ⟨"--recurse", 'r', .switch .recurse,
     "Use directory as input (recurse into subdirectories is not implemented yet)"⟩,
   ⟨"--filter", 'f', .setting .filter,
     "Define comma-separated filters that must match (AND-linked) to rule to be processed."⟩,
   ⟨"--target", 't', .setting .target, "Output target format"⟩,
   ⟨"--target-list", 'l', .switch .listTargets, "List available output target formats"⟩,
   ⟨"--config", 'c', .setting .config,
     "Configuration with field name and index mapping for target environment"⟩,
   ⟨"--output", 'o', .setting .output,
     "Output file or filename prefix if multiple files are generated"⟩,
   ⟨"--backend-option", 'O', .setting .option,
     "Options and switches that are passed to the backend"⟩,
   ⟨"--defer-abort", 'd', .switch .deferAbort,
     "Don't abort on parse or conversion errors, proceed with next rule. " ++
       "The exit code from the last error is returned"⟩,
   ⟨"--ignore-backend-errors", 'I', .switch .ignoreTargetFaults,
     "Only return error codes for parse errors and ignore errors for rules that cause backend " ++
       "errors. Useful, when you want to get as much queries as possible."⟩,
   ⟨"--verbose", 'v', .switch .verbose, "Be verbose"⟩,
   ⟨"--debug", 'D', .switch .debug, "Debugging output"⟩]

namespace Arguments

def turnOn (a : Arguments) : Switch → Except ArgumentStop Arguments
  | .help => .error .help
  | .recurse => .ok { a with recurse := true }
  | .listTargets => .ok { a with listTargets := true }
  | .deferAbort => .ok { a with deferAbort := true }
  | .ignoreTargetFaults => .ok { a with ignoreTargetFaults := true }
  | .verbose => .ok { a with verbose := true }
  | .debug => .ok { a with debug := true }

/-- Gives a setting its value. Options add up; of the other settings the last value counts. -/
def assign (a : Arguments) (value : String) : Setting → Except ArgumentStop Arguments
  | .target => match TargetKind.ofIdentifier value with
    | .ok target => .ok { a with target }
    | .error _ => .error (.usage ("argument --target/-t: invalid choice: " ++ Text.quoted value))
  | .config => .ok { a with config := some value }
  | .filter => .ok { a with filter := some value }
  | .output => .ok { a with output := some value }
  | .option => .ok { a with options := a.options ++ [value] }

/-- The flags that a long name stands for: the one with this name, or those that begin with it. -/
def flagsNamed (name : String) : List Flag :=
  match flagSpecs.find? fun s => s.long == name with
  | some s => [s.flag]
  | none => (flagSpecs.filter fun s => s.long.startsWith name).map FlagSpec.flag

def flagOf? (c : Char) : Option Flag :=
  (flagSpecs.find? fun s => s.short == c).map FlagSpec.flag

/-- A number below zero, which is no flag. -/
def isNegativeNumber (s : String) : Bool :=
  match s.toList with
  | '-' :: rest =>
    let fraction := (rest.dropWhile Char.isDigit).drop 1
    match rest.dropWhile Char.isDigit with
    | [] => !rest.isEmpty
    | c :: _ => c == '.' && !fraction.isEmpty && fraction.all Char.isDigit
  | _ => false

/-- An argument that is read as a flag, not as a value or input. -/
def isFlag (s : String) : Bool :=
  s.startsWith "-" && s.length > 1 &&
    ((flagsNamed ((s.splitOn "=").headD "")).length == 1 ||
      (!s.startsWith "--" && ((s.toList[1]?).bind flagOf?).isSome) ||
      (!isNegativeNumber s && !s.contains ' '))

/-- A flag that wants a value has no next argument for it. -/
def noValue (name : String) : ArgumentStop :=
  .usage ("argument " ++ name ++ ": expected one argument")

/-- Reads the letters after a dash: switches, and at the end maybe a setting. The result names the
setting that still wants its value. -/
def readLetters (a : Arguments) : List Char → Except ArgumentStop (Arguments × Option Setting)
  | [] => .ok (a, none)
  | c :: rest => match flagOf? c with
    | none => .error (.usage ("unrecognized arguments: -" ++ String.ofList (c :: rest)))
    | some (.switch s) => match a.turnOn s with
      | .error e => .error e
      | .ok a => readLetters a rest
    | some (.setting s) =>
      if rest.isEmpty then .ok (a, some s)
      else
        let value := String.ofList (if rest.head? == some '=' then rest.drop 1 else rest)
        (a.assign value s).map fun a => (a, none)

def readLong (a : Arguments) (argument : String) :
    Except ArgumentStop (Arguments × Option Setting) :=
  let name := (argument.splitOn "=").headD ""
  let value? := if name.length < argument.length
    then some (String.ofList (argument.toList.drop (name.length + 1))) else none
  match flagsNamed name, value? with
  | [.switch s], none => (a.turnOn s).map fun a => (a, none)
  | [.switch _], some v =>
    .error (.usage ("argument " ++ name ++ ": ignored explicit argument " ++ Text.quoted v))
  | [.setting s], none => .ok (a, some s)
  | [.setting s], some v => (a.assign v s).map fun a => (a, none)
  | [], _ => .error (.usage ("unrecognized arguments: " ++ argument))
  | _, _ => .error (.usage ("ambiguous option: " ++ argument))

def readOne (a : Arguments) (argument : String) :
    Except ArgumentStop (Arguments × Option Setting) :=
  if !isFlag argument then .ok ({ a with inputs := a.inputs ++ [argument] }, none)
  else if argument.startsWith "--" then readLong a argument
  else readLetters a (argument.toList.drop 1)

/-- Reads arguments, the first of which may be the value of a setting. -/
def readAll (a : Arguments) : Option Setting → List String → Except ArgumentStop Arguments
  | none, [] => .ok a
  | some _, [] => .error (.usage "expected one argument")
  | some s, value :: rest =>
    if isFlag value then .error (.usage "expected one argument")
    else match a.assign value s with
      | .error e => .error e
      | .ok a => readAll a none rest
  | none, argument :: rest =>
    if argument == "--" then .ok { a with inputs := a.inputs ++ rest }
    else match readOne a argument with
      | .error e => .error e
      | .ok (a, setting) => readAll a setting rest

def read (arguments : List String) : Except ArgumentStop Arguments :=
  readAll {} none arguments

/-! ## Help -/

def usage : String :=
  "usage: sigmaquery " ++
    " ".intercalate (flagSpecs.map fun s => match s.flag with
      | .switch _ => "[" ++ s.long ++ "]"
      | .setting _ => "[" ++ s.long ++ " VALUE]") ++ " [inputs ...]\n"

def flagHelp : String :=
  String.join (flagSpecs.map fun s =>
    "  " ++ Text.padEnd 30 (s.long ++ ", -" ++ s.short.toString) ++ s.help ++ "\n")

def optionHelp (k : TargetKind) : String :=
  if k.optionSpecs.isEmpty then ""
  else "  " ++ k.identifier ++ "\n" ++
    String.join (k.optionSpecs.map fun o =>
      "    " ++ Text.padEnd 10 o.name ++ ": " ++ o.help ++
        " (default: " ++ o.default.display ++ ")\n")

def help : String :=
  usage ++ "\nConvert Sigma rules into SIEM signatures.\n\n" ++ flagHelp ++
    "\nBackend options:\n" ++ String.join (TargetKind.listed.map optionHelp)

def targetList : String :=
  String.join (TargetKind.listed.map fun k =>
    Text.padStart 10 k.identifier ++ ": " ++ k.description ++ "\n")

end Arguments

end SigmaQuery
