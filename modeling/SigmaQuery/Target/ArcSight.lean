import SigmaQuery.Target.AllowedFields

/-!
# ArcSight

Saved searches for ArcSight. A field that the target does not know is left out, and its value is
searched for by the words in it.
-/

namespace SigmaQuery

structure ArcSight where
  query : TextQuery
  allowed : List Value
deriving Repr, Inhabited

namespace ArcSight

def dialect : Dialect :=
  { conjunction := some " AND "
    disjunction := some " OR "
    negation := some " NOT "
    listSeparator := some " OR "
    group := some (.around "(" ")")
    list := some (.around "(" ")")
    value := some (.around "\"" "\"")
    isNull := some (.around "NOT _exists_:" "")
    notNull := some (.around "_exists_:" "")
    item := some (.between " = ")
    itemList := some (.between " = ")
    listHandling := .apart }

/-- The fields that the target always knows. -/
def ownFields : List String := ["deviceVendor", "categoryDeviceGroup", "deviceProduct"]

def new (options : Options) (c : Config) : Except Fault ArcSight :=
  (allowedFields ownFields c).map fun allowed => { query := ⟨options, dialect⟩, allowed }

def isDivider (c : Char) : Bool :=
  "/\\@?#&_%*',()\" ".toList.contains c

def words (s : String) : List String :=
  ((s.toList.splitBy fun a b => !isDivider a && !isDivider b).map fun w =>
    String.ofList (w.filter fun c => !isDivider c)).filter (· != "")

/-- The words of a value. A value without a divider is one word; only a text can be divided. -/
def wordsOf (v : Value) : Except Fault (List Value) :=
  if v.display.toList.any isDivider then match v with
    | .text s => .ok ((words s).map .text)
    | _ => .error .wrongType
  else .ok [v]

/-- The text of a value: one that holds a conjunction is put in brackets. -/
def valueText : Value → Except Fault String
  | .int n => .ok (toString n)
  | .text s => .ok (if 1 < (s.splitOn "AND").length then "(" ++ s ++ ")" else s)
  | .list vs =>
    let shown := (Value.list vs).display
    .ok (if (Value.text "AND").memberOf vs then "(" ++ shown ++ ")" else shown)
  | .map es =>
    let shown := (Value.map es).display
    .ok (match lookup (.text "AND") es with
      | some _ => "(" ++ shown ++ ")"
      | none => shown)
  | _ => .error .wrongType

def quotedText (d : Dialect) (v : Value) : Except Fault String :=
  Dialect.fill d.value [v.display]

def quotedTexts (d : Dialect) : List Value → Except Fault (List String)
  | [] => .ok []
  | v :: rest => match quotedText d v with
    | .error e => .error e
    | .ok t => (quotedTexts d rest).map (t :: ·)

/-- The conjunction of the words of a value. -/
def wordsText (d : Dialect) (v : Value) : Except Fault String := do
  let texts ← quotedTexts d (← wordsOf v)
  match texts with
  | [t] => return t
  | _ => Dialect.joinWith d.conjunction texts

/-- The conjunctions of the words of several values, each as a value of its own. -/
def wordsTexts (d : Dialect) : List Value → Except Fault (List String)
  | [] => .ok []
  | v :: rest => do
    let t ← wordsText d v
    return t :: (← wordsTexts d rest)

/-- The texts of values that are texts themselves. -/
def valueTexts : List String → Except Fault (List String)
  | [] => .ok []
  | s :: rest => do
    let t ← valueText (.text s)
    return t :: (← valueTexts rest)

def disjunction (d : Dialect) (texts : List String) : Except Fault String := do
  return "(" ++ (← Dialect.joinWith d.disjunction texts) ++ ")"

/-- A value of a field that the target does not know. -/
def looseText (d : Dialect) (v : Value) : Except Fault String :=
  match v with
  | .text _ => do
    let t ← valueText (.text (← wordsText d v))
    return "(" ++ t ++ ")"
  | _ => valueText v

/-- The values of a list of a field that the target does not know. -/
def looseListText (d : Dialect) (vs : List Value) : Except Fault String := do
  let texts ← wordsTexts d vs
  disjunction d (← valueTexts texts)

def alternative (known : Bool) (field : Value) (v : Value) : Except Fault String :=
  (valueText v).map fun t => if known then field.display ++ " = " ++ t else t

def alternatives (known : Bool) (field : Value) : List Value → Except Fault (List String)
  | [] => .ok []
  | v :: rest => do
    let t ← alternative known field v
    return t :: (← alternatives known field rest)

def itemList (allowed : List Value) (field v : Value) : Except Fault String := do
  let texts ← alternatives (field.memberOf allowed) field (← v.elements)
  return " OR ".intercalate texts

def item (d : Dialect) (allowed : List Value) (field v : Value) : Except Fault String :=
  if field.memberOf allowed then
    if d.takesValue v then do
      Dialect.fill d.item [field.display, ← quotedText d v]
    else match v with
      | .list vs => itemList allowed field (.list vs)
      | _ => .error (.type (.mapValue v.typeText))
  else if d.takesValue v then looseText d v
  else match v with
    | .list vs => looseListText d vs
    | _ => .error (.type (.mapValue v.typeText))

/-- A junction. In a disjunction every part must have a text. -/
def join (d : Dialect) (j : Junction) (parts : List (Option String)) :
    Except Fault (Option String) :=
  match j with
  | .conj => d.join .conj parts
  | .disj =>
    if parts.all Option.isSome then (disjunction d (parts.filterMap id)).map some
    else .error .wrongType

/-- A disjunction of plain texts, each by its words. -/
def anyText (d : Dialect) (texts : List String) : Except Fault String := do
  let joined ← eachWords texts
  disjunction d (← valueTexts joined)
where
  /-- The conjunctions of the words of each text. -/
  eachWords : List String → Except Fault (List String)
    | [] => .ok []
    | s :: rest => do
      let quoted ← quotedTexts d (← wordsOf (.text s))
      let t ← Dialect.joinWith d.conjunction quoted
      return t :: (← eachWords rest)

def renderer (d : Dialect) (allowed : List Value) : Renderer ArcSight :=
  let value := fun v => FaultM.ofExcept (valueText v)
  { Renderer.standard d id with
    anyText := some fun texts => do return some (← FaultM.ofExcept (anyText d texts))
    join := fun j parts => FaultM.ofExcept (join d j parts)
    bracket := fun t => do return some (← FaultM.ofExcept (Dialect.fill d.group [textOrNone t]))
    value
    list := Renderer.listText d value
    item := fun field v => do return some (← FaultM.ofExcept (item d allowed field v))
    itemList := fun field v => do return some (← FaultM.ofExcept (itemList allowed field v)) }

def search (c : Cond) : GenerateM ArcSight (Option String) := do
  let t := (← get).target
  GenerateM.target ((renderer t.query.dialect t.allowed).render c)

def suffix (title : Value) : String :=
  " AND type != 2 | rex field = flexString1 mode=sed \"s//Sigma: " ++ title.display ++ "/g\""

def generate : GenerateM ArcSight (Option String) := do
  match ← GenerateM.conditions with
  | [] => return none
  | p :: _ =>
    let text ← GenerateM.query search GenerateM.noAggregation p
    let title ← GenerateM.entry "title"
    match text with
    | some t => return some (t ++ suffix title)
    | none => throw .wrongType

end ArcSight

end SigmaQuery
