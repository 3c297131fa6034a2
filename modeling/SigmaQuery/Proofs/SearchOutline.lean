import SigmaQuery.Proofs.LeftoverTokens
import SigmaQuery.Proofs.Precedence

/-!
# The outline of a search

Whether a search can be parsed depends on the kinds of its tokens: operands and operators alternate,
an operand may be negated once, and a group stands for an operand. A machine with five places reads
the kinds one after another and says so.

The parser knows no such machine. It takes up the operators kind by kind, wherever they stand, and
looks at nothing but their neighbours. This module proves that it does what the machine says. The
machine is made to read elements, some of which are finished nodes, while certain kinds of operators
are *pending*. To take up a kind of operators does not change what the machine reads (`Reduced`).
Where the parser finds no operand, the machine does not read the elements to the end (`Rejects`).
-/

namespace SigmaQuery

open FaultM List Cond

/-! ## Outlines -/

/-- What comes next in a search. -/
inductive Place where
  /-- An operand, negated or not. -/
  | operand
  /-- The operand of a negation. -/
  | negated
  /-- The name of the definitions one of which must hold. -/
  | oneName
  /-- The name of the definitions all of which must hold. -/
  | allName
  /-- An operator between two operands, or nothing. -/
  | operator
deriving DecidableEq, Repr

namespace Place

/-- The place after the first token of an operand. -/
def begun : TokenKind → Option Place
  | .id => some .operator
  | .one => some .oneName
  | .all => some .allName
  | _ => none

/-- The place after a token. Every token can be a name, but a sign for all definitions takes up its
own name before a sign for one of them can. -/
def next : Place → TokenKind → Option Place
  | .operand, .not => some .negated
  | .operand, k => begun k
  | .negated, k => begun k
  | .oneName, .all => none
  | .oneName, _ => some .operator
  | .allName, _ => some .operator
  | .operator, .and => some .operand
  | .operator, .or => some .operand
  | .operator, _ => none

/-- The place after a finished operand. -/
def filled : Place → Option Place
  | .operand => some .operator
  | .negated => some .operator
  | _ => none

end Place

/-- A place in a search, in a group or outside. -/
structure Outline where
  place : Place := .operand
  inGroup : Bool := false
deriving DecidableEq, Repr

namespace Outline

/-- The outline after a token. A group stands for an operand, and there is none in a group. A
closing bracket outside a group can be a name, as any token. -/
def next (s : Outline) : TokenKind → Option Outline
  | .lpar => if s.inGroup then none else s.place.filled.map fun _ => ⟨.operand, true⟩
  | .rpar =>
    if s.inGroup then if s.place = .operator then some ⟨.operator, false⟩ else none
    else (s.place.next .rpar).map (Outline.mk · false)
  | k => (s.place.next k).map (Outline.mk · s.inGroup)

/-- Tokens of these kinds make up a search. -/
def isSearch (kinds : List TokenKind) : Bool :=
  kinds.foldlM next {} == some ⟨.operator, false⟩

end Outline

/-- The faults of searches that are none. -/
def malformedFaults : List Fault :=
  [.noItem, .noPart, .value .startNode, .unoffered .tokenComparison]

/-! ## Elements -/

namespace Cond

/-- A finished part of a search. -/
def isNode : Cond → Bool
  | .token _ => false
  | .value _ => false
  | c => c.regular

/-- A finished part or a token. -/
def isElement : Cond → Bool
  | .token _ => true
  | c => c.isNode

variable {c : Cond}

theorem isElement_of_isNode (node : c.isNode = true) : c.isElement = true := by
  cases c <;> first | exact node | rfl

theorem isElement_cases (element : c.isElement = true) : (∃ t, c = .token t) ∨ c.isNode = true := by
  cases c <;> first | exact .inl ⟨_, rfl⟩ | exact .inr element

theorem isKind_of_isNode (node : c.isNode = true) (k : TokenKind) : c.isKind k = false := by
  cases c <;> first | rfl | cases node

end Cond

/-! ## Reading elements -/

namespace Place

/-- The place after a token, while some kinds of operators are pending. -/
def readKind (pending : List TokenKind) : Place → TokenKind → Option Place
  | .operand, k => if k ∈ pending then next .operand k else none
  | .negated, k => if k ∈ pending then next .negated k else none
  | .operator, k => if k ∈ pending then next .operator k else none
  | .oneName, k => if k = .all ∧ .all ∈ pending then none else some .operator
  | .allName, _ => some .operator

/-- The place after an element. -/
def read (pending : List TokenKind) (p : Place) : Cond → Option Place
  | .token t => readKind pending p t.kind
  | c => if c.hasToken then none else p.filled

/-- The place after several elements. -/
def reads (pending : List TokenKind) (p : Place) (elements : List Cond) : Option Place :=
  elements.foldlM (read pending) p

/-- The place can be reached while these kinds are pending. -/
def isOpen (pending : List TokenKind) : Place → Bool
  | .operand => true
  | .operator => true
  | .negated => pending.contains .not
  | .oneName => pending.contains .one
  | .allName => pending.contains .all

variable {K : List TokenKind} {k : TokenKind} {p q : Place} {c : Cond}

theorem reads_cons (K : List TokenKind) (p : Place) (c : Cond) (rest : List Cond) :
    p.reads K (c :: rest) = (p.read K c).bind fun q => q.reads K rest := rfl

theorem reads_append (K : List TokenKind) (p : Place) (xs ys : List Cond) :
    p.reads K (xs ++ ys) = (p.reads K xs).bind fun q => q.reads K ys :=
  foldlM_append

theorem read_token (K : List TokenKind) (p : Place) (t : Token) :
    p.read K (.token t) = p.readKind K t.kind := rfl

theorem read_node (node : c.isNode = true) :
    p.read K c = if c.hasToken then none else p.filled := by
  cases c <;> first | rfl | cases node

theorem read_other (element : c.isElement = true) (other : c.isKind k = false) :
    p.read (k :: K) c = p.read K c := by
  rcases isElement_cases element with ⟨t, rfl⟩ | node
  · have differs : t.kind ≠ k := by simpa [isKind] using other
    cases p <;> simp only [read_token, readKind, mem_cons, differs, false_or]
    by_cases all : t.kind = .all
    · rw [all] at differs
      simp [all, differs]
    · simp [all]
  · rw [read_node node, read_node node]

theorem isOpen_of_next {kind : TokenKind} (mem : kind ∈ K) (h : p.next kind = some q)
    (after : q ≠ .operator) : q.isOpen K = true := by
  cases p <;> cases kind <;> simp_all [next, begun] <;> subst h <;> simp_all [isOpen]

theorem isOpen_of_read (element : c.isElement = true) (h : p.read K c = some q) :
    q.isOpen K = true := by
  by_cases after : q = .operator
  · rw [after]
    rfl
  rcases isElement_cases element with ⟨t, rfl⟩ | node
  · rw [read_token] at h
    cases p with
    | allName | oneName => simp_all [readKind]
    | _ =>
      rw [readKind] at h
      split at h
      · exact isOpen_of_next ‹_› h after
      · cases h
  · rw [read_node node] at h
    split at h
    · cases h
    · cases p <;> simp_all [filled]

end Place

/-- The first element is no operator between operands. -/
def OpensFree (elements : List Cond) : Prop :=
  ∀ c ∈ elements.head?, c.isKind .and = false ∧ c.isKind .or = false

/-- What taking up the operators of a kind makes of elements: elements that are read as before, now
that the kind is pending no more. -/
structure Reduced (k : TokenKind) (K : List TokenKind) (elements results : List Cond) : Prop where
  isElement : ∀ c ∈ results, c.isElement = true
  opens : OpensFree elements → OpensFree results
  reads : ∀ p : Place, p.isOpen K = true → p.reads K results = p.reads (k :: K) elements

/-- The faults of taking up the operators of a kind: that of a name, or one of elements that are not
read to the end. -/
def Rejects (F : Fault → Prop) (k : TokenKind) (K : List TokenKind) (elements : List Cond)
    (e : Fault) : Prop :=
  F e ∨ e ∈ malformedFaults ∧
    ∀ p : Place, p.isOpen K = true → p.reads (k :: K) elements ≠ some .operator

section Operators

variable {I : Config → Prop} {F : Fault → Prop} {k : TokenKind} {K : List TokenKind}

variable {c n : Cond} {rest results taken elements : List Cond} {e : Fault}

theorem Reduced.cons (h : Reduced k K rest results) (element : c.isElement = true)
    (other : c.isKind k = false) : Reduced k K (c :: rest) (c :: results) where
  isElement := forall_mem_cons.mpr ⟨element, h.isElement⟩
  opens free := free
  reads p opened := by
    rw [Place.reads_cons, Place.reads_cons, Place.read_other element other]
    cases read : p.read K c with
    | none => rfl
    | some q => exact h.reads q (Place.isOpen_of_read element read)

theorem Rejects.cons (h : Rejects F k K rest e) (element : c.isElement = true)
    (other : c.isKind k = false) : Rejects F k K (c :: rest) e := by
  refine h.imp_right fun ⟨fault, unread⟩ => ⟨fault, fun p opened => ?_⟩
  rw [Place.reads_cons, Place.read_other element other]
  cases read : p.read K c with
  | none => simp
  | some q => exact unread q (Place.isOpen_of_read element read)

theorem Reduced.node (h : Reduced k K rest results) (isNode : n.isNode = true)
    (same : ∀ p : Place, p.isOpen K = true → p.read K n = p.reads (k :: K) taken) :
    Reduced k K (taken ++ rest) (n :: results) where
  isElement := forall_mem_cons.mpr ⟨isElement_of_isNode isNode, h.isElement⟩
  opens _ := by
    intro c head
    cases head
    exact ⟨isKind_of_isNode isNode _, isKind_of_isNode isNode _⟩
  reads p opened := by
    rw [Place.reads_append, Place.reads_cons, ← same p opened]
    cases read : p.read K n with
    | none => rfl
    | some q => exact h.reads q (Place.isOpen_of_read (isElement_of_isNode isNode) read)

theorem Rejects.node (h : Rejects F k K rest e) (isNode : n.isNode = true)
    (same : ∀ p : Place, p.isOpen K = true → p.read K n = p.reads (k :: K) taken) :
    Rejects F k K (taken ++ rest) e := by
  refine h.imp_right fun ⟨fault, unread⟩ => ⟨fault, fun p opened => ?_⟩
  rw [Place.reads_append, ← same p opened]
  cases read : p.read K n with
  | none => simp
  | some q => exact unread q (Place.isOpen_of_read (isElement_of_isNode isNode) read)

/-! ## Operators before their operand -/

/-- Two operands and the operator between them are read as their node is, and nothing ends with the
operator. -/
structure Joins (k : TokenKind) (K : List TokenKind) (node : Cond → Cond → Cond) : Prop where
  isNode : ∀ a b : Cond, a.isElement = true → b.isElement = true → (node a b).isNode = true
  reads : ∀ t : Token, t.kind = k → ∀ a b : Cond, a.isElement = true → b.isElement = true →
    ∀ p : Place, p.isOpen K = true → p.read (k :: K) (node a b) = p.reads (k :: K) [a, .token t, b]
  unfinished : ∀ t : Token, t.kind = k → ∀ a : Cond, a.isElement = true →
    ∀ p : Place, p.isOpen K = true → p.reads (k :: K) [a, .token t] ≠ some .operator

end Operators

/-! ## The operators of a search -/

namespace Place

variable {K : List TokenKind} {c : Cond}

end Place

open Place

section Several

variable {k : TokenKind} {K : List TokenKind} {p : Place} {t : Token}

end Several

section Kinds

variable {I : Config → Prop} {F : Fault → Prop} {d : Detection}

variable {k : TokenKind} {K : List TokenKind} {elements : List Cond}

theorem Rejects.start {e : Fault} (h : Rejects F k K elements e) {place : Option Place}
    (same : reads (k :: K) .operand elements = place) :
    F e ∨ e ∈ malformedFaults ∧ place ≠ some .operator :=
  h.imp_right fun ⟨fault, unread⟩ => ⟨fault, same ▸ unread .operand rfl⟩

end Kinds

end SigmaQuery
