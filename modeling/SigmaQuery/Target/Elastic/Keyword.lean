import SigmaQuery.Target.TextQuery

/-!
# Keyword fields

Elasticsearch keeps a text field twice: analyzed, and as a keyword in a field below it. A value with
wildcards has to be searched for in the keyword field, if the field has one.
-/

namespace SigmaQuery.Elastic

structure Keywords where
  /-- The name of the field below. -/
  field : Value
  /-- The fields that have no keyword field. -/
  blacklist : List String
  /-- The last field was a keyword field. -/
  matched : Bool := true
deriving Repr, Inhabited

def keywordOptions : List OptionSpec :=
  [commentOption,
   { name := "keyword_field", default := .text "keyword", help := "Keyword sub-field name" },
   { name := "keyword_blacklist"
     default := .null
     help := "Fields that don't have a keyword subfield" }]

namespace Keywords

/-- The fields in the option, divided by commas. -/
def blacklistOf : Value → List String
  | .text s => s.splitOn ","
  | _ => []

def new (o : Options) : Keywords :=
  { field := o.get "keyword_field", blacklist := blacklistOf (o.get "keyword_blacklist") }

def isWild : Value → Bool
  | .text s => Text.hasWildcard s
  | _ => false

/-- The value has a wildcard, or one of a list of values has. -/
def hasWild : Value → Bool
  | .list vs => vs.any isWild
  | v => isWild v

def below (field keyword : Value) : Except Fault Value :=
  match field, keyword with
  | .text f, .text k => .ok (.text (f ++ "." ++ k))
  | _, _ => .error .wrongType

/-- The field in which a value is searched for. -/
def fieldName (field v : Value) : FaultM Keywords Value := do
  let k ← get
  if !(field.memberOf (k.blacklist.map .text)) && hasWild v then
    set { k with matched := true }
    FaultM.ofExcept (below field k.field)
  else
    set { k with matched := false }
    return field

end Keywords

end SigmaQuery.Elastic
