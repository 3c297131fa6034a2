import SigmaQuery.Fault

/-!
# Merging documents

A document is merged into another entry by entry. Where both have a map, the maps are merged; else
the new value replaces the old one. Keys that are there keep their place and new keys follow.
-/

namespace SigmaQuery

mutual

def mergeEntries (dest : Entries) : Entries → Entries
  | [] => dest
  | (k, v) :: rest => mergeEntries (put k (mergeOver (lookup k dest) v) dest) rest

/-- Merges a value over the one that is there, if any. -/
def mergeOver (old : Option Value) : Value → Value
  | .map new => match old with
    | some (.map entries) => .map (mergeEntries entries new)
    | _ => .map new
  | v => v

end

namespace Value

/-- Merges a document into another. Without entries to merge the other may be of any type. -/
def update (dest source : Value) : Except Fault Value :=
  match source with
  | .map [] => .ok dest
  | .map new => match dest with
    | .map entries => .ok (.map (mergeEntries entries new))
    | _ => .error .wrongType
  | _ => .error .noPart

/-! ## Flattening -/

/-- The elements that a value runs through: the items of a list, the characters of a text, the keys
of a map. -/
def elements : Value → Except Fault (List Value)
  | .list items => .ok items
  | .text s => .ok (s.toList.map fun c => .text c.toString)
  | .map entries => .ok (entries.map fun e => e.1.toValue)
  | _ => .error .wrongType

mutual

/-- The value, or for a list the values in it at any depth. -/
def leaves : Value → List Value
  | .list items => leavesOf items
  | v => [v]

def leavesOf : List Value → List Value
  | [] => []
  | v :: rest => leaves v ++ leavesOf rest

end

/-- The elements of a value, lists among them flattened. -/
def flatten (v : Value) : Except Fault (List Value) :=
  v.elements.map leavesOf

end Value

end SigmaQuery
