import SigmaQuery.Target.TextQuery

/-!
# Graylog

Query strings for Graylog: searches only, no aggregations.
-/

namespace SigmaQuery.Graylog

def dialect : Dialect :=
  { conjunction := some " AND "
    disjunction := some " OR "
    negation := some "NOT "
    listSeparator := some " "
    group := some (.around "(" ")")
    list := some (.around "(" ")")
    value := some (.around "\"" "\"")
    isNull := some (.around "NOT _exists_:" "")
    notNull := some (.around "_exists_:" "")
    item := some (.between ":") }

def isSign (c : Char) : Bool :=
  "+-!()\x7b\x7d[]^\"~:/".toList.contains c

def escape : Text.EscapeRule :=
  { special := isSign, backslash := true, doubled := fun c => c == '&' || c == '|' }

def renderer (d : Dialect) : Renderer TextQuery :=
  Renderer.standard d escape.text

def generate : GenerateM TextQuery (Option String) :=
  TextQuery.generate renderer GenerateM.noAggregation

end SigmaQuery.Graylog
