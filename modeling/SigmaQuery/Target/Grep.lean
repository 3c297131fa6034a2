import SigmaQuery.Target.TextQuery

/-!
# Regular expressions

A search as one Perl regular expression over a line. Fields do not count: a value may stand anywhere
in the line.
-/

namespace SigmaQuery

/-- A target for regular expressions. -/
structure Grep where
  options : Options
deriving Repr, Inhabited

namespace Grep

/-- A character with a meaning in a regular expression. -/
def isSign (c : Char) : Bool :=
  "|()[]\x7b\x7d.^$".toList.contains c

/-- The signs of a regular expression; a backslash of the text is left as it is. -/
def escape : Text.EscapeRule := { special := isSign }

/-- A text as a regular expression; a star is any characters. -/
def clean (s : String) : String :=
  Text.replaceChar '*' ".*" (escape.text s)

def alternatives (texts : List String) : String :=
  "(?:" ++ "|".intercalate (texts.map (".*" ++ ·)) ++ ")"

/-- A value, or one of the values of a list. -/
def valueText : Value → Except Fault String
  | .list vs =>
    if vs.all Value.isPlain then .ok (alternatives (vs.map fun v => clean v.display))
    else .error (.type .listValues)
  | .text s => .ok (clean s)
  | .int n => .ok (clean (toString n))
  | v => .error (unexpectedNode (.ofValue v))

mutual

def render : Cond → Except Fault String
  | .all _ items => do
    return String.join ((← renderEach items).map fun t => "(?=.*" ++ t ++ ")")
  | .any items => do return alternatives (← renderEach items)
  | .not [] => .error (unexpectedNode .absent)
  | .not (c :: _) => do return "(?!.*" ++ (← render c) ++ ")"
  | .group inner => do return "(?:.*" ++ (← render inner) ++ ")"
  | .isNull _ => .error (.unoffered .nodeType)
  | .notNull _ => .error (.unoffered .nodeType)
  | .seq items => valueText (.list (seqValues items))
  | .item _ v => valueText v
  | .value v => valueText v
  | c => .error (unexpectedNode c)

def renderEach : List Cond → Except Fault (List String)
  | [] => .ok []
  | c :: rest => do
    let t ← render c
    return t :: (← renderEach rest)

end

def generate : GenerateM Grep (Option String) :=
  GenerateM.first (fun p => do
      let text ← FaultM.ofExcept (render p.search)
      return some ("grep -P '^" ++ text ++ "'"))
    (fun _ => pure (some "")) (fun _ => pure (some ""))

end Grep

end SigmaQuery
