import SigmaQuery.Json.Reader
import SigmaQuery.Text.Quoted

/-!
# Files

The commands read documents from files in a tree of directories. A directory is there if a file is in
it, or if the tree names it.
-/

namespace SigmaQuery

/-- The content of a file: a document, or a text that is none. -/
inductive FileContent where
  | document (v : Value)
  | malformed (reason : String)
deriving Repr, Inhabited

namespace FileContent

def ofText (text : String) : FileContent :=
  match Json.parse? text with
  | some v => .document v
  | none => .malformed "no JSON document"

end FileContent

/-- Why a file cannot be opened. -/
inductive FileFault where
  | missing
  | isDirectory
  | notDirectory
deriving DecidableEq, Repr, Inhabited

namespace FileFault

/-- The system's text for a fault with a path. -/
def message (path : String) : FileFault → String
  | .missing => "[Errno 2] No such file or directory: " ++ Text.quoted path
  | .isDirectory => "[Errno 21] Is a directory: " ++ Text.quoted path
  | .notDirectory => "[Errno 20] Not a directory: " ++ Text.quoted path

end FileFault

/-! ## Paths -/

namespace Path

def names (path : String) : List String :=
  (path.splitOn "/").filter fun name => name != "" && name != "."

def normalized (path : String) : String :=
  let start := if path.startsWith "/" then "/" else ""
  match names path with
  | [] => if start == "" then "." else start
  | ns => start ++ "/".intercalate ns

/-- The names on a path without steps back. -/
def steps (path : String) : List String :=
  (names path).foldl (fun acc name => if name == ".." then acc.dropLast else acc ++ [name]) []

/-- The path of the directory that a path leads to a file in. -/
def parent (path : String) : String :=
  match (path.splitOn "/").dropLast with
  | [] => "."
  | [""] => "/"
  | ns => "/".intercalate ns

/-- The name is that of a hidden file or directory. -/
def isHidden (name : String) : Bool :=
  name.startsWith "."

end Path

/-- Files with their paths. -/
structure FileTree where
  files : List (List String × FileContent) := []
  /-- Directories that are there whether or not a file is in them. -/
  directories : List (List String) := []
deriving Repr, Inhabited

namespace FileTree

def ofFiles (files : List (String × FileContent)) (directories : List String := []) : FileTree where
  files := files.map fun (path, content) => (Path.steps path, content)
  directories := directories.map Path.steps

/-- The file with the given names on its path. -/
def find? (t : FileTree) (steps : List String) : Option FileContent :=
  (t.files.find? fun f => f.1 == steps).map Prod.snd

/-- A directory has the given names on its path. -/
def isDirectory (t : FileTree) (steps : List String) : Bool :=
  steps.isEmpty || t.directories.contains steps ||
    t.files.any fun f => steps.isPrefixOf f.1 && f.1 != steps

/-- A file stands where a path has a directory. -/
def isBlocked (t : FileTree) (steps : List String) : Bool :=
  t.files.any fun f => f.1.isPrefixOf steps && f.1 != steps

def read (t : FileTree) (path : String) : Except FileFault FileContent :=
  let steps := Path.steps path
  match t.find? steps with
  | some content => .ok content
  | none =>
    if t.isDirectory steps then .error .isDirectory
    else if t.isBlocked steps then .error .notDirectory
    else .error .missing

def write (t : FileTree) (path : String) : Except FileFault Unit :=
  let steps := Path.steps path
  if t.isDirectory steps then .error .isDirectory
  else if t.isBlocked steps then .error .notDirectory
  else if t.isDirectory steps.dropLast then .ok ()
  else .error .missing

/-- The paths of the files in a directory and the directories in it, hidden ones left out. -/
def walk (t : FileTree) (path : String) : Except FileFault (List String) :=
  let steps := Path.steps path
  if t.isDirectory steps then
    let start := Path.normalized path
    .ok (t.files.filterMap fun (names, _) =>
      let below := names.drop steps.length
      if steps.isPrefixOf names && !below.isEmpty && !below.any Path.isHidden then
        some (Path.normalized (start ++ "/" ++ "/".intercalate below))
      else none)
  else if (t.find? steps).isSome || t.isBlocked steps then .error .notDirectory
  else .error .missing

end FileTree

end SigmaQuery
