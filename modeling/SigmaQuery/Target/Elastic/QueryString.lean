import SigmaQuery.Target.Elastic.Keyword

/-!
# Query strings

Searches in the query string language of Elasticsearch: no aggregations. A value in a keyword field
is not quoted.
-/

namespace SigmaQuery.Elastic

/-- A target for query strings. -/
structure QueryString where
  query : TextQuery
  keywords : Keywords
deriving Repr, Inhabited

namespace QueryString

def dialect : Dialect :=
  { conjunction := some " AND "
    disjunction := some " OR "
    negation := some "NOT "
    listSeparator := some " "
    group := some (.around "(" ")")
    list := some (.around "(" ")")
    value := some (.around "" "")
    isNull := some (.around "NOT _exists_:" "")
    notNull := some (.around "_exists_:" "")
    item := some (.between ":") }

def new (o : Options) : QueryString :=
  { query := ⟨o, dialect⟩, keywords := .new o }

def isSign (c : Char) : Bool :=
  Text.isBlank c || "+-=!()\x7b\x7d[]^\"~:/".toList.contains c

/-- What a query string escapes. Angle brackets cannot be escaped and are left out. -/
def escape : Text.EscapeRule :=
  { special := isSign
    backslash := true
    doubled := fun c => c == '&' || c == '|'
    dropped := fun c => c == '<' || c == '>' }

/-- A value, quoted unless the last field was a keyword field. -/
def valueText (d : Dialect) (v : Value) : FaultM QueryString String := do
  let text ← FaultM.ofExcept (d.valueText escape.text v)
  if text.toList.all Text.isBlank then return "\"\""
  else if (← get).keywords.matched then return text
  else return "\"" ++ text ++ "\""

/-- The field in which a value is searched for. -/
def fieldName (field v : Value) : FaultM QueryString Value :=
  FaultM.zoom keywords (fun k t => { t with keywords := k }) (Keywords.fieldName field v)

def item (d : Dialect) (field v : Value) : FaultM QueryString (Option String) := do
  let field ← fieldName field v
  Renderer.itemText d (valueText d) (Renderer.itemListText d (valueText d)) field v

def renderer (d : Dialect) : Renderer QueryString :=
  { Renderer.standard d escape.text with
    value := valueText d
    list := Renderer.listText d (valueText d)
    item := item d
    itemList := Renderer.itemListText d (valueText d) }

def search (c : Cond) : GenerateM QueryString (Option String) := do
  GenerateM.target ((renderer (← get).target.query.dialect).render c)

def generate : GenerateM QueryString (Option String) := do
  let o := (← get).target.query.options
  GenerateM.first (GenerateM.query search GenerateM.noAggregation)
    (fun _ => GenerateM.titleComment o) (fun _ => pure (GenerateM.commentEnd o))

/-- The search of a condition, for a target that has a query string as a part. -/
def searchIn {σ : Type} (part : σ → QueryString) (replace : QueryString → σ → σ) (c : Cond) :
    GenerateM σ (Option String) :=
  GenerateM.within part replace (search c)

end QueryString

end SigmaQuery.Elastic
