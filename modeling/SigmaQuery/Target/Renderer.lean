import SigmaQuery.Target.Dialect

/-!
# Rendering

A renderer says how each kind of node becomes text. Rendering goes through a tree from left to right,
the parts of a node before the node itself. A node may have no text. Rendering may read and change the
state of the target.
-/

namespace SigmaQuery

/-- How the nodes of a tree become text. -/
structure Renderer (σ : Type) where
  /-- Looks at the parts of a junction before they are rendered. -/
  enter : Junction → List Cond → FaultM σ Unit
  /-- The parts of a junction that are rendered. -/
  keeps : Cond → Bool
  /-- The text of a disjunction of plain texts, where it has a form of its own. -/
  anyText : Option (List String → FaultM σ (Option String))
  join : Junction → List (Option String) → FaultM σ (Option String)
  negate : Option String → FaultM σ (Option String)
  bracket : Option String → FaultM σ (Option String)
  value : Value → FaultM σ String
  list : List Value → FaultM σ (Option String)
  item : Value → Value → FaultM σ (Option String)
  /-- A field with its list of values. -/
  itemList : Value → Value → FaultM σ (Option String)
  isNull : Cond → FaultM σ (Option String)
  notNull : Cond → FaultM σ (Option String)

def unexpectedNode (c : Cond) : Fault :=
  .type (.nodeType c.typeText)

/-- What a target that writes nothing says to a node. -/
def unwritten : Cond → Fault
  | .absent => unexpectedNode .absent
  | .token t => unexpectedNode (.token t)
  | .value v => if v.isPlain then .unoffered .nodeType else match v with
    | .list _ => .unoffered .nodeType
    | _ => unexpectedNode (.value v)
  | _ => .unoffered .nodeType

/-- The values of a bare list of nodes. A node that is no value has none. -/
def seqValues (items : List Cond) : List Value :=
  items.map fun
    | .value v => v
    | _ => .null

def plainTexts? : List Cond → Option (List String)
  | [] => some []
  | .value (.text s) :: rest => (plainTexts? rest).map (s :: ·)
  | _ :: _ => none

namespace Renderer

variable {σ : Type}

mutual

def render (r : Renderer σ) : Cond → FaultM σ (Option String)
  | .all _ items => do
    r.enter .conj items
    r.join .conj (← renderEach r items)
  | .any items => match r.anyText, plainTexts? items with
    | some f, some texts => f texts
    | _, _ => do
      r.enter .disj items
      r.join .disj (← renderEach r items)
  | .not [] => throw (unexpectedNode .absent)
  | .not (c :: _) => do r.negate (← render r c)
  | .isNull items => r.isNull (items.head?.getD .absent)
  | .notNull items => r.notNull (items.head?.getD .absent)
  | .group inner => do r.bracket (← render r inner)
  | .seq items => r.list (seqValues items)
  | .item field value => r.item field value
  | .value (.text s) => do return some (← r.value (.text s))
  | .value (.int n) => do return some (← r.value (.int n))
  | .value (.list vs) => r.list vs
  | c => throw (unexpectedNode c)

/-- The texts of the parts of a junction that are rendered. -/
def renderEach (r : Renderer σ) : List Cond → FaultM σ (List (Option String))
  | [] => pure []
  | c :: rest =>
    if r.keeps c then do
      let t ← render r c
      return t :: (← renderEach r rest)
    else renderEach r rest

end

/-! ## The usual ways -/

def valueTexts (value : Value → FaultM σ String) : List Value → FaultM σ (List String)
  | [] => pure []
  | v :: rest => do
    let t ← value v
    return t :: (← valueTexts value rest)

def listText (d : Dialect) (value : Value → FaultM σ String) (vs : List Value) :
    FaultM σ (Option String) :=
  if vs.all Value.isPlain then do
    let texts ← valueTexts value vs
    let joined ← FaultM.ofExcept (Dialect.joinWith d.listSeparator texts)
    return some (← FaultM.ofExcept (Dialect.fill d.list [joined]))
  else throw (.type .listValues)

def operandText (d : Dialect) (value : Value → FaultM σ String) : Value → FaultM σ String
  | .list vs => do return (← listText d value vs).getD ""
  | v => value v

/-- A field with its value, where `listed` writes a list of values apart. -/
def itemText (d : Dialect) (value : Value → FaultM σ String)
    (listed : Value → Value → FaultM σ (Option String)) (field v : Value) :
    FaultM σ (Option String) :=
  if d.takesValue v then do
    let operand ← operandText d value v
    return some (← FaultM.ofExcept (Dialect.fill d.item [field.display, operand]))
  else match v with
    | .list vs => listed field (.list vs)
    | _ => throw (.type (.mapValue v.typeText))

/-- A field with its list of values in the pattern of the language. -/
def itemListText (d : Dialect) (value : Value → FaultM σ String) (field v : Value) :
    FaultM σ (Option String) := do
  let operand ← operandText d value v
  return some (← FaultM.ofExcept (Dialect.fill d.itemList [field.display, operand]))

def standard (d : Dialect) (clean : String → String) : Renderer σ :=
  let value := fun v => FaultM.ofExcept (d.valueText clean v)
  { enter := fun _ _ => pure ()
    keeps := fun _ => true
    anyText := none
    join := fun j parts => FaultM.ofExcept (d.join j parts)
    negate := fun t => FaultM.ofExcept (d.negate t)
    bracket := fun t => FaultM.ofExcept (d.bracket t)
    value
    list := listText d value
    item := itemText d value (itemListText d value)
    itemList := itemListText d value
    isNull := fun c => FaultM.ofExcept (Dialect.nullText d.isNull c)
    notNull := fun c => FaultM.ofExcept (Dialect.nullText d.notNull c) }

end Renderer

end SigmaQuery
