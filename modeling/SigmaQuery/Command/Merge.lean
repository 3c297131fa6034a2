import SigmaQuery.Command.Convert

/-!
# Merging

The documents of the rules of a collection are written as one list, with all that global and repeated
documents add to them.
-/

namespace SigmaQuery.Merge

/-- The documents of the rules in a list of documents. -/
def merged (documents : List Value) : Except Fault (List Value) :=
  (FaultM.start (Collection.parse none documents) .empty).1.map Collection.documents

def text (documents : List Value) : Except Fault String :=
  match Json.sorted? (.list documents) with
  | some s => .ok (s ++ "\n")
  | none => .error .wrongType

def run (path : String) (files : FileTree) : Except Fault Outcome :=
  match files.read path with
  | .error e =>
    .ok ⟨1, ({} : Console).complain ("Error while opening input file: " ++ e.message path)⟩
  | .ok (.malformed _) => .error .malformed
  | .ok (.document v) => do
    let documents ← v.elements
    let result ← merged documents
    return ⟨0, { out := ← text result }⟩

end SigmaQuery.Merge
