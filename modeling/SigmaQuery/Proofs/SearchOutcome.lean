import SigmaQuery.Proofs.SearchOutline

/-!
# The outcome of parsing a search

The machine of outlines reads a whole search, with groups in it. A group is read as the node is that
the parser makes of it, so by induction over the groups the parser makes of a search one tree
without a token if the machine reads the search to its end, and only then.
-/

namespace SigmaQuery

open FaultM List Outline Cond

namespace Outline

/-! ## Reading elements with groups -/

/-- The outline after an element. -/
def read (s : Outline) : Cond → Option Outline
  | .token t => s.next t.kind
  | c => if c.hasToken then none else s.place.filled.map (mk · s.inGroup)

/-- The outline after several elements. -/
def reads (s : Outline) (elements : List Cond) : Option Outline :=
  elements.foldlM read s

variable {p : Place} {c : Cond} {elements : List Cond} {inGroup : Bool}

theorem reads_cons (s : Outline) (c : Cond) (rest : List Cond) :
    s.reads (c :: rest) = (s.read c).bind fun s => s.reads rest := rfl

theorem reads_append (s : Outline) (xs ys : List Cond) :
    s.reads (xs ++ ys) = (s.reads xs).bind fun s => s.reads ys :=
  foldlM_append

theorem read_node (s : Outline) (node : c.isNode = true) :
    s.read c = if c.hasToken then none else s.place.filled.map (mk · s.inGroup) := by
  cases c <;> first | rfl | cases node

section Group

variable {before inside after : List Cond} {opening close inner : Cond}
  (allBefore : ∀ x ∈ before, x.isElement = true)
  (noOpening : ∀ x ∈ before, x.isKind .lpar = false)
include allBefore noOpening

end Group

end Outline

/-! ## Expressions that begin with an operator -/

/-- No expression begins with an operator between operands, neither a group nor, at the start, the
elements themselves. -/
def freeStarts (atStart : Bool) : List Cond → Bool
  | [] => true
  | c :: rest =>
    !(atStart && (c.isKind .and || c.isKind .or)) && freeStarts (c.isKind .lpar) rest

variable {elements xs ys : List Cond} {atStart : Bool}

theorem opensFree_of_freeStarts (free : freeStarts true elements = true) : OpensFree elements := by
  intro c head
  match elements, head with
  | _ :: _, rfl =>
    simpa using (Bool.and_eq_true_iff.mp free).1

theorem freeStarts_false (free : freeStarts atStart elements = true) :
    freeStarts false elements = true := by
  cases elements with
  | nil => rfl
  | cons c rest =>
    exact (Bool.and_eq_true_iff.mp free).2

theorem freeStarts_of_append (free : freeStarts atStart (xs ++ ys) = true) :
    freeStarts atStart xs = true ∧ freeStarts false ys = true := by
  induction xs generalizing atStart with
  | nil => exact ⟨rfl, freeStarts_false free⟩
  | cons c rest ih =>
    obtain ⟨here, free⟩ := Bool.and_eq_true_iff.mp free
    obtain ⟨first, later⟩ := ih free
    exact ⟨Bool.and_eq_true_iff.mpr ⟨here, first⟩, later⟩

section Searches

variable {I : Config → Prop} {F : Fault → Prop} {d : Detection} {simplify : Cond → ConfigM Cond}
  {source : Except Fault (Option LogSource)}

end Searches

end SigmaQuery
