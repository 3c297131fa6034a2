import SigmaQuery.Target.TextQuery

/-!
# LogPoint

Queries in the LogPoint language.
-/

namespace SigmaQuery.LogPoint

def dialect : Dialect :=
  { conjunction := some " "
    disjunction := some " OR "
    negation := some " -"
    listSeparator := some ", "
    group := some (.around "(" ")")
    list := some (.around "[" "]")
    value := some (.around "\"" "\"")
    isNull := some (.around "-" "=*")
    notNull := some (.around "" "=*")
    item := some (.between "=")
    itemList := some (.between " IN ")
    listHandling := .apart }

def renderer (d : Dialect) : Renderer TextQuery :=
  Renderer.standard d Text.quoteEscape.text

def generate : GenerateM TextQuery (Option String) :=
  TextQuery.generate renderer (pipelineAggregation "chart " "search")

end SigmaQuery.LogPoint
