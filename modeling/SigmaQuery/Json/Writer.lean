import SigmaQuery.Data.Value
import SigmaQuery.Text.Quoted

/-!
# JSON text

Values are written as JSON in ASCII. On one line a comma is followed by a blank; indented text has
each item and each entry on a line of its own. Keys can be sorted, unless a map has numbers and texts
as keys.
-/

namespace SigmaQuery.Json

def unitEscape (n : Nat) : String :=
  "\\u" ++ Text.hex 4 n

/-- One character inside a JSON string. Beyond the first plane it is written as two units. -/
def charText (c : Char) : String :=
  if c = '"' then "\\\""
  else if c = '\\' then "\\\\"
  else if c = '\n' then "\\n"
  else if c = '\r' then "\\r"
  else if c = '\t' then "\\t"
  else if c.toNat = 8 then "\\b"
  else if c.toNat = 12 then "\\f"
  else if 32 ≤ c.toNat && c.toNat < 128 then c.toString
  else if c.toNat < 0x10000 then unitEscape c.toNat
  else
    let n := c.toNat - 0x10000
    unitEscape (0xD800 + n / 0x400) ++ unitEscape (0xDC00 + n % 0x400)

def stringText (s : String) : String :=
  "\"" ++ String.join (s.toList.map charText) ++ "\""

def scalarText : Value → String
  | .null => "null"
  | .bool b => if b then "true" else "false"
  | .int n => toString n
  | .decimal d => d.text
  | .text s => stringText s
  | .list _ => "[]"
  | .map _ => "\x7b\x7d"

mutual

def compact : Value → String
  | .list items => "[" ++ ", ".intercalate (compactItems items) ++ "]"
  | .map entries => "\x7b" ++ ", ".intercalate (compactEntries entries) ++ "\x7d"
  | v => scalarText v

def compactItems : List Value → List String
  | [] => []
  | v :: rest => compact v :: compactItems rest

def compactEntries : List (Key × Value) → List String
  | [] => []
  | (k, v) :: rest => (stringText k.name ++ ": " ++ compact v) :: compactEntries rest

end

/-- A line break and the blanks of a nesting depth. -/
def lineBreak (depth : Nat) : String :=
  "\n" ++ String.ofList (List.replicate (2 * depth) ' ')

mutual

/-- The value with each part on its own line, at a nesting depth. -/
def indentedAt (depth : Nat) : Value → String
  | .list (v :: rest) =>
    "[" ++ lineBreak (depth + 1) ++
      ("," ++ lineBreak (depth + 1)).intercalate (indentedItems (depth + 1) (v :: rest)) ++
      lineBreak depth ++ "]"
  | .map (e :: rest) =>
    "\x7b" ++ lineBreak (depth + 1) ++
      ("," ++ lineBreak (depth + 1)).intercalate (indentedEntries (depth + 1) (e :: rest)) ++
      lineBreak depth ++ "\x7d"
  | v => scalarText v

def indentedItems (depth : Nat) : List Value → List String
  | [] => []
  | v :: rest => indentedAt depth v :: indentedItems depth rest

def indentedEntries (depth : Nat) : List (Key × Value) → List String
  | [] => []
  | (k, v) :: rest =>
    (stringText k.name ++ ": " ++ indentedAt depth v) :: indentedEntries depth rest

end

/-- The value with each part on its own line. -/
def indented (v : Value) : String :=
  indentedAt 0 v

/-! ## Sorted keys -/

/-- Keys in order: numbers by size, texts by code point. -/
def keyLe : Key → Key → Bool
  | .num a, .num b => a ≤ b
  | .text a, .text b => !(b < a)
  | .num _, .text _ => true
  | .text _, .num _ => false

mutual

/-- The value with the entries of every map sorted by key. -/
def sortKeys : Value → Value
  | .list items => .list (sortKeysItems items)
  | .map entries => .map ((sortKeysEntries entries).mergeSort fun a b => keyLe a.1 b.1)
  | v => v

def sortKeysItems : List Value → List Value
  | [] => []
  | v :: rest => sortKeys v :: sortKeysItems rest

def sortKeysEntries : List (Key × Value) → List (Key × Value)
  | [] => []
  | (k, v) :: rest => (k, sortKeys v) :: sortKeysEntries rest

end

mutual

/-- The keys of every map are all numbers or all texts, so that they can be sorted. -/
def sortable : Value → Bool
  | .list items => sortableItems items
  | .map entries =>
    (entries.all (fun e => e.1.isNumber) || entries.all (fun e => !e.1.isNumber)) &&
      sortableEntries entries
  | _ => true

def sortableItems : List Value → Bool
  | [] => true
  | v :: rest => sortable v && sortableItems rest

def sortableEntries : List (Key × Value) → Bool
  | [] => true
  | (_, v) :: rest => sortable v && sortableEntries rest

end

/-- The value on one line with sorted keys, if they can be sorted. -/
def sorted? (v : Value) : Option String :=
  if sortable v then some (compact (sortKeys v)) else none

end SigmaQuery.Json
