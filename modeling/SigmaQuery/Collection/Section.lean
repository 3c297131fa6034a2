import SigmaQuery.Data.Merge

/-!
# Sections

The documents of a collection share maps. A map that one document brings in at some path may stand at
the same path of other documents, and what is merged into it there is seen in all of them. A *section*
is such a map together with the number of the document that brought it in: at a given path, equal
numbers mean one and the same map.
-/

namespace SigmaQuery

/-- A value whose maps are sections. -/
inductive Section where
  /-- A value that is no map. -/
  | value (v : Value)
  /-- A map, with the number of the document it comes from. -/
  | map (origin : Nat) (entries : List (Key × Section))
deriving Repr, Inhabited

/-- The entries of a document, with sections. -/
abbrev Sections := List (Key × Section)

namespace Section

/-! ## Sections and values -/

mutual

/-- The sections of a value of the document with a number. -/
def ofValue (origin : Nat) : Value → Section
  | .map entries => .map origin (ofEntries origin entries)
  | .null => .value .null
  | .bool b => .value (.bool b)
  | .int n => .value (.int n)
  | .decimal d => .value (.decimal d)
  | .text s => .value (.text s)
  | .list items => .value (.list items)

def ofEntries (origin : Nat) : Entries → Sections
  | [] => []
  | (k, v) :: rest => (k, ofValue origin v) :: ofEntries origin rest

end

mutual

def toValue : Section → Value
  | .value v => v
  | .map _ entries => .map (toEntries entries)

def toEntries : Sections → Entries
  | [] => []
  | (k, s) :: rest => (k, toValue s) :: toEntries rest

end

/-! ## Merging -/

mutual

/-- Merges sections into sections. A map that is there keeps its number. -/
def mergeAll (dest : Sections) : Sections → Sections
  | [] => dest
  | (k, s) :: rest => mergeAll (put k (mergeOver (lookup k dest) s) dest) rest

/-- Merges a section over the one that is there, if any. -/
def mergeOver (old : Option Section) : Section → Section
  | .map origin new => match old with
    | some (.map kept entries) => .map kept (mergeAll entries new)
    | _ => .map origin new
  | .value v => .value v

end

/-! ## Sharing -/

mutual

/-- A section as it is after a change, seen from another document: at the same path, a map of the same
number is taken over. -/
def refresh (changed : Option Section) : Section → Section
  | .value v => .value v
  | .map origin entries => match changed with
    | some (.map other new) =>
      if origin = other then .map origin new else .map origin (refreshAll new entries)
    | _ => .map origin entries

/-- The entries of a document after a change in another document. -/
def refreshAll (changed : Sections) : Sections → Sections
  | [] => []
  | (k, s) :: rest => (k, refresh (lookup k changed) s) :: refreshAll changed rest

end

def hasMap : Section → Bool
  | .value _ => false
  | .map _ entries => entries.any fun
    | (_, .map _ _) => true
    | _ => false

/-- The entries of the map at a key; none if there is no map. -/
def entriesAt (k : Key) (sections : Sections) : Sections :=
  match lookup k sections with
  | some (.map _ entries) => entries
  | _ => []

/-- Two levels of maps after a change in another document: their keys stay, and the maps below them
are refreshed. -/
def refreshBelow (changed : Sections) : Sections → Sections
  | [] => []
  | (k, .map origin entries) :: rest =>
    (k, .map origin (refreshAll (entriesAt k changed) entries)) :: refreshBelow changed rest
  | e :: rest => e :: refreshBelow changed rest

end Section

end SigmaQuery
