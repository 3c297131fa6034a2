import SigmaQuery.Command.Merge

/-!
# The program

The program converts the rules in files to queries. Asked to `merge` a file, it writes the documents
of the rules in it instead. Rules and configurations are JSON documents, and a file with rules holds a
list of them.

This module loads the files that the arguments name, and prints what the command has to say. All else
is the work of the commands.
-/

namespace SigmaQuery.Main

/-- The names in a directory; none if there is no such directory. -/
def namesIn? (path : String) : IO (Option (List String)) := do
  try
    let here : IO.FS.DirEntry := { root := path, fileName := "" }
    return some ((← here.path.readDir).toList.map fun e => e.fileName)
  catch _ => return none

/-- The files at a path: the file itself, or all files in the directory. -/
partial def filesAt (path : String) : IO (List (String × FileContent)) := do
  match ← namesIn? path with
  | some names => return (← names.mapM fun name => filesAt (path ++ "/" ++ name)).flatten
  | none =>
    try return [(path, .ofText (← IO.FS.readFile path))]
    catch _ => return []

/-- The files at several paths, and those directories among the given ones that are there. -/
def load (paths directories : List String) : IO FileTree := do
  let files ← paths.mapM filesAt
  let found ← directories.filterM fun path => return (← namesIn? path).isSome
  return .ofFiles files.flatten found

/-- Prints what a command has to say, and gives its exit code. -/
def report (output : Option String) : Except Fault Outcome → IO UInt32
  | .error e => do
    IO.eprintln (e.message?.getD "The rules cannot be converted.")
    return 1
  | .ok o => do
    IO.print o.console.out
    IO.eprint o.console.err
    match output, o.console.file with
    | some path, some text => IO.FS.writeFile path text
    | _, _ => pure ()
    return o.exit.toUInt32

/-- Converts the inputs that the arguments name. -/
def convert (arguments : List String) : IO UInt32 := do
  match Arguments.read arguments with
  | .error _ => report none (Convert.run arguments {})
  | .ok a =>
    let output := Convert.given a.output
    let places := Convert.sources a ++ output.toList.flatMap fun path => [path, Path.parent path]
    report output (Convert.run arguments (← load (Convert.sources a) places))

def merge (path : String) : IO UInt32 := do
  report none (Merge.run path (← load [path] [path]))

end SigmaQuery.Main

def main (arguments : List String) : IO UInt32 :=
  match arguments with
  | ["merge", path] => SigmaQuery.Main.merge path
  | _ => SigmaQuery.Main.convert arguments
