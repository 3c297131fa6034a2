import SigmaQuery.Target.TextQuery

/-!
# Sumo Logic

Queries in the Sumo Logic language.
-/

namespace SigmaQuery.SumoLogic

def dialect : Dialect :=
  { conjunction := some " AND "
    disjunction := some " OR "
    negation := some "!"
    listSeparator := some ", "
    group := some (.around "(" ")")
    list := some (.around "(" ")")
    value := some (.around "\"" "\"")
    isNull := some (.around "isEmpty(" ")")
    notNull := some (.around "!isEmpty(" ")")
    item := some (.between "=")
    itemList := some (.between " IN ")
    listHandling := .apart }

def renderer (d : Dialect) : Renderer TextQuery :=
  Renderer.standard d Text.quoteEscape.text

def generate : GenerateM TextQuery (Option String) :=
  TextQuery.generate renderer (pipelineAggregation "" "when")

end SigmaQuery.SumoLogic
