import SigmaQuery.Rule.Definition

/-!
# Searches

The part of a condition before the first bar is the search. It is parsed by reduction: groups in
brackets first, then the operators one after another, the tightest first. Each reduction replaces an
operator and its operands by a node of the tree, until one node is left. The conditions of the rule's
log source are joined to it, and the tree is simplified.

Reading a group takes the first opening and the first closing bracket, so groups cannot be nested.
-/

namespace SigmaQuery

/-! ## Elements

While a condition is parsed it is a list of elements: tokens that are not yet taken up, and finished
parts. A condition that is given as a list holds bare values; a number there counts as the token
whose number it is, but has neither a text nor a position.
-/

def Cond.isKind (k : TokenKind) : Cond → Bool
  | .token t => t.kind == k
  | .value v => v.same (.int k.number)
  | _ => false

def Cond.tokenText : Cond → Except Fault String
  | .token t => .ok t.text
  | _ => .error .noPart

def Cond.tokenPosition : Cond → Except Fault Nat
  | .token t => .ok t.position
  | _ => .error .noPart

/-- The elements before the first token of a kind, the token, and the elements after it. -/
def splitKind? (k : TokenKind) : List Cond → Option (List Cond × Cond × List Cond)
  | [] => none
  | c :: rest =>
    if c.isKind k then some ([], c, rest)
    else (splitKind? k rest).map fun (before, sign, after) => (c :: before, sign, after)

/-- The parts of a split make up the list. -/
theorem eq_of_splitKind? {k : TokenKind} {elements before after : List Cond} {sign : Cond}
    (h : splitKind? k elements = some (before, sign, after)) :
    elements = before ++ sign :: after := by
  induction elements generalizing before with
  | nil => exact absurd h (by simp [splitKind?])
  | cons c rest ih =>
    unfold splitKind? at h
    split at h
    · simp only [Option.some.injEq, Prod.mk.injEq] at h
      obtain ⟨rfl, rfl, rfl⟩ := h
      rfl
    · obtain ⟨⟨b, s, a⟩, found, same⟩ := Option.map_eq_some_iff.mp h
      simp only [Prod.mk.injEq] at same
      obtain ⟨rfl, rfl, rfl⟩ := same
      rw [ih found]
      rfl

/-! ## Groups -/

/-- A list of elements with its first group taken out. -/
structure GroupSplit where
  before : List Cond
  inside : List Cond
  after : List Cond
deriving Repr

def emptyGroup (opening : Cond) : Fault :=
  match opening.tokenPosition with
  | .ok p => .parse (.emptyGroup p)
  | .error e => e

/-- The message about a closing bracket that comes too early. -/
def closeBeforeOpen (close opening : Cond) : Fault :=
  match close.tokenPosition, opening.tokenPosition with
  | .ok c, .ok o => .parse (.closeBeforeOpen c o)
  | .error e, _ => e
  | _, .error e => e

/-- Takes out the group between the first opening and the first closing bracket, if there is an
opening one. -/
def splitGroup? (elements : List Cond) : Except Fault (Option GroupSplit) :=
  match splitKind? .lpar elements with
  | none => .ok none
  | some (before, opening, rest) => match splitKind? .rpar before with
    | some (_, close, _) => .error (closeBeforeOpen close opening)
    | none => match splitKind? .rpar rest with
      | none => .error (.parse .missingClose)
      | some ([], _, _) => .error (emptyGroup opening)
      | some (inside, _, after) => .ok (some ⟨before, inside, after⟩)

/-- A group and its two brackets are part of the elements, and the group is not empty. -/
theorem length_of_splitGroup? {elements : List Cond} {g : GroupSplit}
    (h : splitGroup? elements = .ok (some g)) :
    elements.length = g.before.length + g.inside.length + g.after.length + 2 ∧
      0 < g.inside.length := by
  unfold splitGroup? at h
  split at h
  · exact absurd h (by simp)
  · rename_i before opening rest opened
    split at h
    · exact absurd h (by simp)
    · split at h
      · exact absurd h (by simp)
      · exact absurd h (by simp)
      · rename_i inside close after nonempty closed
        simp only [Except.ok.injEq, Option.some.injEq] at h
        subst h
        have outer := congrArg List.length (eq_of_splitKind? opened)
        have inner := congrArg List.length (eq_of_splitKind? closed)
        simp only [List.length_append, List.length_cons] at outer inner
        exact ⟨by dsimp only; omega, List.length_pos_iff.mpr nonempty⟩

/-! ## Operators -/

/-- A name pattern: a star stands for any characters of one line. A final line break of the name is
left out of account. -/
def nameMatches : List Char → List Char → Bool
  | [], name => name.isEmpty || name == ['\n']
  | '*' :: pattern, [] => nameMatches pattern []
  | '*' :: pattern, c :: name =>
    nameMatches pattern (c :: name) || (c != '\n' && nameMatches ('*' :: pattern) name)
  | _ :: _, [] => false
  | p :: pattern, c :: name => p == c && nameMatches pattern name
termination_by pattern name => (pattern.length, name.length)

/-- A star stands in the text, but not only at its start. -/
def isPattern (text : String) : Bool :=
  match text.toList with
  | '*' :: _ => false
  | cs => cs.contains '*'

namespace Detection

/-- The conditions of the definitions whose name matches a pattern, each in brackets. -/
def parseMatching (d : Detection) (pattern : String) : Entries → ConfigM (List Cond)
  | [] => pure []
  | (.num _, _) :: _ => throw .wrongType
  | (.text name, definition) :: rest =>
    if nameMatches pattern.toList name.toList then do
      let c ← parseDefinition d.values .disj definition
      return .group c :: (← parseMatching d pattern rest)
    else parseMatching d pattern rest

/-- The conditions of several definitions, joined: of all of them, of those whose name matches a
pattern, or of the items of one. -/
def parseSeveral (d : Detection) (join : Junction) (operand : Cond) : ConfigM Cond := do
  let text ← FaultM.ofExcept operand.tokenText
  if text = "them" then
    return .group (join.build none (← d.parseEach (d.definitions.map (·.2))))
  else if isPattern text then
    return .group (join.build none (← d.parseMatching text d.definitions))
  else
    return .group (← d.parseNamed join text)

/-- The condition of the definition that a token names. -/
def parseIdentifier (d : Detection) (name : Cond) : ConfigM Cond := do
  return .group (← d.parseNamed .disj (← FaultM.ofExcept name.tokenText))

end Detection

/-- Reduces every operator of a kind that stands before its operand, from left to right. -/
def reduceBefore (k : TokenKind) (node : Cond → ConfigM Cond) : List Cond → ConfigM (List Cond)
  | [] => pure []
  | c :: rest =>
    if c.isKind k then match rest with
      | [] => throw .noItem
      | operand :: rest => do
        let n ← node operand
        return n :: (← reduceBefore k node rest)
    else do return c :: (← reduceBefore k node rest)

/-- Reduces every token of a kind that stands alone. -/
def reduceAlone (k : TokenKind) (node : Cond → ConfigM Cond) : List Cond → ConfigM (List Cond)
  | [] => pure []
  | c :: rest => do
    let n ← if c.isKind k then node c else pure c
    return n :: (← reduceAlone k node rest)

/-- Reduces every operator of a kind between two operands, from left to right, where `left` is the
element before the rest. -/
def reduceBetween (k : TokenKind) (node : Cond → Cond → Cond) (left : Cond) :
    List Cond → Except Fault (List Cond)
  | [] => .ok [left]
  | c :: rest =>
    if c.isKind k then match rest with
      | [] => .error .noItem
      | right :: rest => reduceBetween k node (node left right) rest
    else (reduceBetween k node c rest).map (left :: ·)

/-- Reduces every operator of a kind between two operands. With an operator in front the reduction
would never end. -/
def reduceInfix (k : TokenKind) (node : Cond → Cond → Cond) :
    List Cond → Except Fault (List Cond)
  | [] => .ok []
  | c :: rest =>
    if c.isKind k then .error (if rest.isEmpty then .noItem else .endless)
    else reduceBetween k node c rest

/-- Reduces all operators: those over several definitions, identifiers, negations, conjunctions and
disjunctions, in this order. -/
def reduceOperators (d : Detection) (elements : List Cond) : ConfigM (List Cond) := do
  let elements ← reduceBefore .all (d.parseSeveral .conj) elements
  let elements ← reduceBefore .one (d.parseSeveral .disj) elements
  let elements ← reduceAlone .id d.parseIdentifier elements
  let elements ← reduceBefore .not (fun c => pure (.not [c])) elements
  let elements ← FaultM.ofExcept (reduceInfix .and (fun a b => .all none [a, b]) elements)
  FaultM.ofExcept (reduceInfix .or (fun a b => .any [a, b]) elements)

/-! ## The whole search -/

/-- Joins the conditions of a log source and its index condition to a search. -/
def constrain (source : Option LogSource) (search : Cond) : Cond :=
  match source with
  | none => search
  | some s =>
    let search := match s.conditions with
      | some c => .all none [c, search]
      | none => search
    match s.indexCondition with
    | some c => .all none [c, search]
    | none => search

/-- Parses a search: with `simplify` for the finished tree and `source` for its log source. -/
def parseSearch (simplify : Cond → ConfigM Cond) (source : Except Fault (Option LogSource))
    (d : Detection) (elements : List Cond) : ConfigM Cond :=
  match _found : splitGroup? elements with
  | .error e => throw e
  | .ok none => do
    match ← reduceOperators d elements with
    | [root] =>
      let source ← FaultM.ofExcept source
      simplify (constrain source root)
    | _ => throw (.value .startNode)
  | .ok (some g) => do
    let inner ← parseSearch simplify source d g.inside
    parseSearch simplify source d (g.before ++ .group inner :: g.after)
termination_by elements.length
decreasing_by
  · have := length_of_splitGroup? _found
    omega
  · have := length_of_splitGroup? _found
    simp only [List.length_append, List.length_cons]
    omega

end SigmaQuery
