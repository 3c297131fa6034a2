import SigmaQuery.Data.Value
import SigmaQuery.Text.Quoted

/-!
# Values as text

A value is shown in two ways. Its literal has text in quotes. Its plain form is the literal, but a
text stands for itself.
-/

namespace SigmaQuery

namespace Key

def literal : Key → String
  | .text s => Text.quoted s
  | .num n => toString n

end Key

namespace Value

mutual

def literal : Value → String
  | .null => "None"
  | .bool b => if b then "True" else "False"
  | .int n => toString n
  | .decimal d => d.text
  | .text s => Text.quoted s
  | .list items => "[" ++ ", ".intercalate (itemLiterals items) ++ "]"
  | .map entries => "\x7b" ++ ", ".intercalate (entryLiterals entries) ++ "\x7d"

def itemLiterals : List Value → List String
  | [] => []
  | v :: rest => v.literal :: itemLiterals rest

def entryLiterals : List (Key × Value) → List String
  | [] => []
  | (k, v) :: rest => (k.literal ++ ": " ++ v.literal) :: entryLiterals rest

end

def display : Value → String
  | .text s => s
  | v => v.literal

end Value

def textListLiteral (items : List String) : String :=
  (Value.list (items.map .text)).literal

end SigmaQuery
