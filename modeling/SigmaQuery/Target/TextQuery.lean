import SigmaQuery.Target.Generation
import SigmaQuery.Text.Escape

/-!
# Text queries

A target that writes one text from a rule has a dialect and its options, and keeps no other state.
-/

namespace SigmaQuery

/-- A target that writes text and keeps nothing from rule to rule. -/
structure TextQuery where
  options : Options
  dialect : Dialect
deriving Repr, Inhabited

def commentOption : OptionSpec :=
  { name := "rulecomment"
    default := .bool false
    help := "Prefix generated query with comment containing title" }

namespace TextQuery

def search (renderer : Dialect → Renderer TextQuery) (c : Cond) :
    GenerateM TextQuery (Option String) := do
  GenerateM.target ((renderer (← get).target.dialect).render c)

/-- A query of the first condition, with a comment if asked for. -/
def commented (query : ParsedCondition → GenerateM TextQuery (Option String)) :
    GenerateM TextQuery (Option String) := do
  let o := (← get).target.options
  GenerateM.first query (fun _ => GenerateM.titleComment o)
    (fun _ => pure (GenerateM.commentEnd o))

/-- The usual generation: the first condition as text. -/
def generate (renderer : Dialect → Renderer TextQuery)
    (aggregate : Aggregation → GenerateM TextQuery String) :
    GenerateM TextQuery (Option String) :=
  commented (GenerateM.query (search renderer) aggregate)

/-- The renderer of a dialect without escaping. -/
def plain (d : Dialect) : Renderer TextQuery :=
  Renderer.standard d id

end TextQuery

/-- An aggregation as a pipeline of two steps: the function, and the comparison of its value. -/
def pipelineText (step compare function : String) (a : Aggregation) : String :=
  let grouped := match a.group with
    | none => ""
    | some g => " by " ++ g
  " | " ++ step ++ function ++ "(" ++ a.field.getD "" ++ ") as val" ++ grouped ++ " | " ++
    compare ++ " val " ++ textOrNone a.operator ++ " " ++ textOrNone a.threshold

/-- A pipeline, for every function but near. -/
def pipelineAggregation {σ : Type} (step compare : String) (a : Aggregation) :
    GenerateM σ String :=
  if a.function = some .near then throw (.unoffered .nearAggregation)
  else return pipelineText step compare (textOrNone a.functionText) a

end SigmaQuery
