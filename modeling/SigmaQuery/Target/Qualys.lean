import SigmaQuery.Target.AllowedFields

/-!
# Qualys

Saved searches for Qualys. A field that the target does not know is left out of a conjunction or a
disjunction. The target remembers that a conjunction has lost a part, and that nothing was left.
-/

namespace SigmaQuery

/-- How much of the rules so far could be expressed. -/
inductive Coverage where
  | full
  | part
  | nothing
deriving DecidableEq, Repr, Inhabited

/-- A target for Qualys. -/
structure Qualys where
  query : TextQuery
  allowed : List Value
  coverage : Coverage := .full
deriving Repr, Inhabited

namespace Qualys

def dialect : Dialect :=
  { conjunction := some " and "
    disjunction := some " or "
    negation := some "not "
    listSeparator := some " "
    group := some (.around "(" ")")
    list := some (.around "" "")
    value := some (.around "" "")
    isNull := some (.around "" " is null")
    notNull := some (.around "not (" " is null)")
    item := some [.slot, .text ":`", .slot, .text "`"]
    listHandling := .apart }

def new (options : Options) (c : Config) : Except Fault Qualys :=
  (allowedFields [] c).map fun allowed => { query := ⟨options, dialect⟩, allowed }

/-- A part of a junction that is rendered: anything but a field that the target does not know. -/
def keeps (allowed : List Value) : Cond → Bool
  | .item field _ => field.memberOf allowed
  | _ => true

def valueText (d : Dialect) (v : Value) : FaultM Qualys String :=
  FaultM.ofExcept (d.valueText id v)

def alternative (d : Dialect) (known : Bool) (field v : Value) : FaultM Qualys String := do
  let t ← valueText d v
  return if known then field.display ++ ":`" ++ t ++ "`" else t

def itemList (d : Dialect) (allowed : List Value) (field v : Value) :
    FaultM Qualys (Option String) := do
  let vs ← FaultM.ofExcept v.elements
  let texts ← Renderer.valueTexts (alternative d (field.memberOf allowed) field) vs
  return some ("(" ++ " or ".intercalate texts ++ ")")

def item (d : Dialect) (allowed : List Value) (field v : Value) :
    FaultM Qualys (Option String) :=
  if d.takesValue v then do
    let operand ← Renderer.operandText d (valueText d) v
    if field.memberOf allowed then
      return some (← FaultM.ofExcept (Dialect.fill d.item [field.display, operand]))
    else return some operand
  else match v with
    | .list vs => itemList d allowed field (.list vs)
    | _ => throw (.type (.mapValue v.typeText))

/-- Remembers that a conjunction loses a part. -/
def enter (allowed : List Value) (j : Junction) (items : List Cond) : FaultM Qualys Unit :=
  if j = .conj && !items.all (keeps allowed) then modify fun t => { t with coverage := .part }
  else pure ()

/-- Joins the parts that have a text; without any the text is empty. -/
def join (d : Dialect) (j : Junction) (parts : List (Option String)) :
    Except Fault (Option String) :=
  (Dialect.joinWith (d.sign j) (parts.filterMap id)).map some

def renderer (d : Dialect) (allowed : List Value) : Renderer Qualys :=
  { Renderer.standard d id with
    enter := enter allowed
    keeps := keeps allowed
    join := fun j parts => FaultM.ofExcept (join d j parts)
    item := item d allowed
    itemList := itemList d allowed }

def search (c : Cond) : GenerateM Qualys (Option String) := do
  let t := (← get).target
  GenerateM.target ((renderer t.query.dialect t.allowed).render c)

/-- The query of a rule, if nothing has been lost so far. -/
def generate : GenerateM Qualys (Option String) := do
  match ← GenerateM.conditions with
  | [] => return none
  | p :: _ =>
    let text ← GenerateM.query search GenerateM.noAggregation p
    if text == some "()" then
      modify fun w => { w with target := { w.target with coverage := .nothing } }
    match (← get).target.coverage with
    | .part => throw (.partialMatch text)
    | .nothing => throw (.fullMatch text)
    | .full => return text

end Qualys

end SigmaQuery
