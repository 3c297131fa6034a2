import SigmaQuery.Data.Merge

/-!
# Target options

Options are given as texts: `name=value`, or a name alone, which switches the option on. A target
knows some options, each with a default value.
-/

namespace SigmaQuery

/-- Options by name, with the text given for each, or true. -/
abbrev Options := Entries

/-- An option that a target knows. -/
structure OptionSpec where
  name : String
  default : Value
  help : String
  /-- The name under which the target keeps the option, if it is another one. -/
  keptAs : Option String := none
deriving Repr, Inhabited

namespace Options

def split (option : String) : String × Value :=
  let name := option.toList.takeWhile (· != '=')
  match option.toList.drop name.length with
  | [] => (option, .bool true)
  | _ :: value => (String.ofList name, .text (String.ofList value))

/-- Reads options one after another; a later one replaces an earlier one of the same name. -/
def readEach (options : Options) : List Value → Except Fault Options
  | [] => .ok options
  | .text s :: rest =>
    let (name, value) := split s
    readEach (put (.text name) value options) rest
  | _ :: _ => .error .noPart

/-- Reads a list of options; null is none. -/
def read : Value → Except Fault Options
  | .null => .ok []
  | v => match v.elements with
    | .error e => .error e
    | .ok items => readEach [] items

/-- Adds the defaults of the options that are not given. -/
def withDefaults (specs : List OptionSpec) (o : Options) : Options :=
  specs.foldl (fun o s => putDefault (.text s.name) s.default o) o

def get (o : Options) (name : String) : Value :=
  (lookup (.text name) o).getD .null

end Options

end SigmaQuery
