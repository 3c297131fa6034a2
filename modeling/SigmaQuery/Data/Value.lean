import SigmaQuery.Data.Decimal

/-!
# Values

Rules and configurations are documents: nested values with maps whose entries keep their order.
This module holds the values, the access to the entries of a map, and equality of values as data.
-/

namespace SigmaQuery

inductive Key where
  | text (s : String)
  | num (n : Int)
deriving DecidableEq, Repr, Inhabited

/-- A value of a document. -/
inductive Value where
  | null
  | bool (b : Bool)
  | int (n : Int)
  | decimal (d : Decimal)
  | text (s : String)
  | list (items : List Value)
  | map (entries : List (Key × Value))
deriving Repr, Inhabited

/-- The entries of a map, in their order. -/
abbrev Entries := List (Key × Value)

instance : Coe String Key := ⟨Key.text⟩
instance : Coe String Value := ⟨Value.text⟩

/-! ## Entries -/

def lookup {α : Type} (k : Key) : List (Key × α) → Option α
  | [] => none
  | (k', v) :: rest => if k' = k then some v else lookup k rest

/-- Sets the value at a key. A key that is there keeps its place; a new key goes to the end. -/
def put {α : Type} (k : Key) (v : α) : List (Key × α) → List (Key × α)
  | [] => [(k, v)]
  | (k', w) :: rest => if k' = k then (k', v) :: rest else (k', w) :: put k v rest

def remove {α : Type} (k : Key) (entries : List (Key × α)) : List (Key × α) :=
  entries.filter (·.1 ≠ k)

/-- Sets the value at a key that is not there. -/
def putDefault {α : Type} (k : Key) (v : α) (entries : List (Key × α)) : List (Key × α) :=
  match lookup k entries with
  | some _ => entries
  | none => put k v entries

namespace Key

def toValue : Key → Value
  | .text s => .text s
  | .num n => .int n

def name : Key → String
  | .text s => s
  | .num n => toString n

def isNumber : Key → Bool
  | .text _ => false
  | .num _ => true

end Key

namespace Value

/-- The number that a value counts as; truth values count as zero and one. -/
def number? : Value → Option Decimal
  | .bool b => some (.ofInt (if b then 1 else 0))
  | .int n => some (.ofInt n)
  | .decimal d => some d
  | _ => none

/-- The key that finds a map's entries for this value. A number finds the key of the same number.
A list or a map is no key. -/
inductive KeyUse where
  | key (k : Key)
  | unmatched
  | unusable
deriving Repr

def keyUse : Value → KeyUse
  | .text s => .key (.text s)
  | .bool b => .key (.num (if b then 1 else 0))
  | .int n => .key (.num n)
  | .decimal d => match d.toInt? with
    | some n => .key (.num n)
    | none => .unmatched
  | .null => .unmatched
  | .list _ => .unusable
  | .map _ => .unusable

/-- A value that counts as true: not null, not zero, not empty. -/
def truthy : Value → Bool
  | .null => false
  | .bool b => b
  | .int n => n != 0
  | .decimal d => d.mantissa != 0
  | .text s => s != ""
  | .list items => !items.isEmpty
  | .map entries => !entries.isEmpty

/-- The value of an entry, for a map that has it. -/
def get? (k : Key) : Value → Option Value
  | .map entries => lookup k entries
  | _ => none

def text? : Value → Option String
  | .text s => some s
  | _ => none

def isNull : Value → Bool
  | .null => true
  | _ => false

/-- A text or a whole number; a truth value is neither. -/
def isPlain : Value → Bool
  | .text _ => true
  | .int _ => true
  | _ => false

def typeName : Value → String
  | .null => "NoneType"
  | .bool _ => "bool"
  | .int _ => "int"
  | .decimal _ => "float"
  | .text _ => "str"
  | .list _ => "list"
  | .map _ => "dict"

/-- The value's type, as messages write it. -/
def typeText (v : Value) : String :=
  "<class '" ++ v.typeName ++ "'>"

/-! ## Equality as data

Numbers are compared by value, whatever their type, and truth values count as zero and one. Lists
are compared item by item, and maps without regard to the order of their entries.
-/

mutual

def same : Value → Value → Bool
  | .list xs, .list ys => sameItems xs ys
  | .map es, .map fs => es.length == fs.length && sameEntries es fs
  | .text s, .text t => s == t
  | .null, .null => true
  | .bool b, w => w.number? == some (.ofInt (if b then 1 else 0))
  | .int n, w => w.number? == some (.ofInt n)
  | .decimal d, w => w.number? == some d
  | _, _ => false

def sameItems : List Value → List Value → Bool
  | [], [] => true
  | x :: xs, y :: ys => x.same y && sameItems xs ys
  | _, _ => false

/-- Every entry of the first list has an equal one in the second. -/
def sameEntries : List (Key × Value) → List (Key × Value) → Bool
  | [], _ => true
  | (k, v) :: es, fs =>
    (match lookup k fs with
      | some w => v.same w
      | none => false) && sameEntries es fs

end

/-- Some item of the list equals the value as data. -/
def memberOf (v : Value) (items : List Value) : Bool :=
  items.any (same v)

/-- The value can stand in a set: it is no list and no map. -/
def hashable : Value → Bool
  | .list _ => false
  | .map _ => false
  | _ => true

end Value

end SigmaQuery
