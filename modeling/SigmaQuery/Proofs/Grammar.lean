import SigmaQuery.Condition.Search
import SigmaQuery.Proofs.Computation

/-!
# The grammar of conditions

An expression is a chain of terms with `or` between them, a term is a chain of factors with `and`
between them, and a factor is an operand with or without `not` before it.

The reduction of operators goes over a list of elements several times, and takes up one kind of
operator each time. A *sweep* is such a walk over the list. What a sweep does to an expression
follows from what it does to an operand, as long as it leaves the signs between operands alone.
-/

namespace SigmaQuery

open List

variable {α β γ : Type} {sweep : List Cond → ConfigM (List Cond)} {f : α → List Cond}

/-! ## Expressions -/

/-- A word of a condition. What kind of token it is follows from its place. -/
structure Word where
  text : String
  position : Nat
deriving Repr

/-- The word as a token of a kind. -/
def Word.token (k : TokenKind) (w : Word) : Cond :=
  .token ⟨k, w.text, w.position⟩

theorem Word.isKind_token (k k' : TokenKind) (w : Word) :
    (w.token k).isKind k' = (k == k') := rfl

/-- Parts with a sign between any two of them. -/
structure Chain (α : Type) where
  first : α
  rest : List (Word × α)
deriving Repr

/-- An operand, maybe with a negation before it. -/
structure Factor (α : Type) where
  negation : Option Word
  operand : α
deriving Repr

/-- Factors that are joined by `and`. -/
abbrev Term (α : Type) := Chain (Factor α)

/-- Terms that are joined by `or`. -/
abbrev Expr (α : Type) := Chain (Term α)

namespace Chain

/-- The elements of a chain with signs of a kind. -/
def elements (k : TokenKind) (f : α → List Cond) (c : Chain α) : List Cond :=
  f c.first ++ c.rest.flatMap fun (w, a) => w.token k :: f a

/-- The chain of what a function makes of the parts. -/
def map (f : α → β) (c : Chain α) : Chain β :=
  ⟨f c.first, c.rest.map fun x => (x.1, f x.2)⟩

theorem elements_map {k : TokenKind} (f : α → β) (g : β → List Cond) (c : Chain α) :
    (c.map f).elements k g = c.elements k fun a => g (f a) := by
  simp [elements, map, flatMap_map]

/-- What a computation makes of a part behind a sign. -/
def signed (h : α → ConfigM β) (x : Word × α) : ConfigM (Word × β) := do
  return (x.1, ← h x.2)

/-- What a computation makes of the parts, from left to right. -/
def mapM (h : α → ConfigM β) (c : Chain α) : ConfigM (Chain β) := do
  let first ← h c.first
  return ⟨first, ← c.rest.mapM (signed h)⟩

theorem mapM_pure (c : Chain α) : c.mapM pure = pure c := by
  have same : signed (pure : α → ConfigM α) = fun x => pure (id x) := by
    funext x
    simp [signed]
  rw [mapM, same, List.mapM_pure]
  simp

/-- The tree of a chain, from the left: `node` joins what is there to the next part. -/
def tree (node : Cond → Cond → Cond) (f : α → Cond) (c : Chain α) : Cond :=
  c.rest.foldl (fun t (_, a) => node t (f a)) (f c.first)

end Chain

open Chain

namespace Factor

/-- The elements of a factor. -/
def elements (f : α → List Cond) (x : Factor α) : List Cond :=
  (x.negation.map (Word.token .not)).toList ++ f x.operand

/-- The factor of what a function makes of the operand. -/
def map (f : α → β) (x : Factor α) : Factor β :=
  ⟨x.negation, f x.operand⟩

/-- What a computation makes of the operand. -/
def mapM (h : α → ConfigM β) (x : Factor α) : ConfigM (Factor β) := do
  return ⟨x.negation, ← h x.operand⟩

/-- The tree of a factor. -/
def tree (f : α → Cond) (x : Factor α) : Cond :=
  match x.negation with
  | none => f x.operand
  | some _ => .not [f x.operand]

end Factor

namespace Expr

/-- The elements of an expression. -/
def elements (f : α → List Cond) (e : Expr α) : List Cond :=
  Chain.elements .or (Chain.elements .and (Factor.elements f)) e

/-- The expression of what a function makes of the operands. -/
def map (f : α → β) (e : Expr α) : Expr β :=
  Chain.map (Chain.map (Factor.map f)) e

theorem elements_map (f : α → β) (g : β → List Cond) (e : Expr α) :
    (e.map f).elements g = e.elements fun a => g (f a) := by
  simp only [elements, map, Chain.elements_map]
  rfl

/-- What a computation makes of the operands, from left to right. -/
def mapM (h : α → ConfigM β) (e : Expr α) : ConfigM (Expr β) :=
  Chain.mapM (Chain.mapM (Factor.mapM h)) e

/-- The tree of an expression: a negation binds its operand, then `and` binds from the left, then
`or`. -/
def tree (f : α → Cond) (e : Expr α) : Cond :=
  Chain.tree (fun a b => .any [a, b]) (Chain.tree (fun a b => .all none [a, b]) (Factor.tree f)) e

end Expr

/-! ## Sweeps -/

/-- The sweep takes the elements of a part to those of what `h` makes of the part, and goes on
behind it. -/
def Sweeps (sweep : List Cond → ConfigM (List Cond)) (f : α → List Cond) (h : α → ConfigM β)
    (g : β → List Cond) : Prop :=
  ∀ a rest, sweep (f a ++ rest) = do
    let b ← h a
    let rest ← sweep rest
    return g b ++ rest

/-- The sweep leaves an element as it is, and goes on behind it. -/
def Leaves (sweep : List Cond → ConfigM (List Cond)) (c : Cond) : Prop :=
  ∀ rest, sweep (c :: rest) = do return c :: (← sweep rest)

section Sweeps

variable {sweep : List Cond → ConfigM (List Cond)} {f : α → List Cond} {h : α → ConfigM β}
  {g : β → List Cond}

theorem Sweeps.factor (part : Sweeps sweep f h g) (sign : ∀ w : Word, Leaves sweep (w.token .not)) :
    Sweeps sweep (Factor.elements f) (Factor.mapM h) (Factor.elements g) := by
  rintro ⟨negation, operand⟩ rest
  cases negation with
  | none => simp [Factor.elements, Factor.mapM, part operand rest]
  | some w => simp [Factor.elements, Factor.mapM, sign w _, part operand rest]

theorem Sweeps.chain (part : Sweeps sweep f h g) (k : TokenKind)
    (sign : ∀ w : Word, Leaves sweep (w.token k)) :
    Sweeps sweep (Chain.elements k f) (Chain.mapM h) (Chain.elements k g) := by
  rintro ⟨first, others⟩ rest
  have later : ∀ rest, sweep ((others.flatMap fun (w, a) => w.token k :: f a) ++ rest) = do
      let others ← others.mapM (signed h)
      let rest ← sweep rest
      return (others.flatMap fun (w, a) => w.token k :: g a) ++ rest := by
    induction others with
    | nil => simp
    | cons x others ih =>
      obtain ⟨w, a⟩ := x
      intro rest
      simp only [flatMap_cons, append_assoc, cons_append, mapM_cons]
      rw [sign w, part a, ih]
      simp [Chain.signed]
  simp only [Chain.elements, Chain.mapM, append_assoc]
  rw [part first, later]
  simp

/-- A sweep that knows what to do with operands, and leaves the signs alone, takes an expression to
what is made of its operands. -/
theorem Sweeps.expr (part : Sweeps sweep f h g)
    (signs : ∀ k ∈ [TokenKind.not, .and, .or], ∀ w : Word, Leaves sweep (w.token k))
    (stop : sweep [] = pure []) (e : Expr α) :
    sweep (e.elements f) = do return (← e.mapM h).elements g := by
  have terms := (part.factor (signs .not (by simp))).chain .and (signs .and (by simp))
  have whole := terms.chain .or (signs .or (by simp))
  have := whole e []
  rw [append_nil, stop] at this
  rw [Expr.elements, this]
  simp [Expr.mapM, Expr.elements]

end Sweeps

/-! ## Operators over operands -/

/-- The inside of a condition in brackets. -/
def Cond.inside : Cond → Cond
  | .group c => c
  | c => c

namespace Detection

theorem parseSeveral_eq_group (d : Detection) (j : Junction) (operand : Cond) :
    d.parseSeveral j operand = do return .group (← d.parseSeveral j operand).inside := by
  unfold parseSeveral
  cases operand.tokenText with
  | error e => rfl
  | ok text =>
    by_cases them : text = "them"
    · simp [them, Cond.inside]
    · by_cases pattern : isPattern text = true
      · simp [them, pattern, Cond.inside]
      · simp [them, pattern, Cond.inside]

theorem parseIdentifier_eq_group (d : Detection) (name : Cond) :
    d.parseIdentifier name = do return .group (← d.parseIdentifier name).inside := by
  simp [parseIdentifier, Cond.inside]

end Detection

section Phases

variable {k : TokenKind} {node : Cond → ConfigM Cond}

theorem leaves_reduceBefore {c : Cond} (other : c.isKind k = false) :
    Leaves (reduceBefore k node) c := by
  intro rest
  rw [reduceBefore.eq_def]
  simp [other]

theorem leaves_reduceBefore_token {k' : TokenKind} (differ : (k' == k) = false) (w : Word) :
    Leaves (reduceBefore k node) (w.token k') :=
  leaves_reduceBefore differ

theorem leaves_reduceAlone {c : Cond} (other : c.isKind k = false) :
    Leaves (reduceAlone k node) c := by
  intro rest
  simp [reduceAlone, other]

theorem reduceBefore_token (w : Word) (operand : Cond) (rest : List Cond) :
    reduceBefore k node (w.token k :: operand :: rest) = do
      let n ← node operand
      return n :: (← reduceBefore k node rest) := by
  rw [reduceBefore.eq_def]
  simp [Word.isKind_token]

theorem reduceAlone_token (w : Word) (rest : List Cond) :
    reduceAlone k node (w.token k :: rest) = do
      let n ← node (w.token k)
      return n :: (← reduceAlone k node rest) := by
  simp [reduceAlone, Word.isKind_token]

end Phases

/-! ## Atoms

An atom names one definition or several. The reduction takes up the atoms of a condition by their
kind: first those over all, then those over one of several definitions, then the identifiers. A part
that is finished stands in brackets, and the type of an expression says which atoms may be left.
-/

/-- An atom of a condition. -/
inductive Atom where
  | ident (name : Word)
  | oneOf (sign name : Word)
  | allOf (sign name : Word)
deriving Repr

/-- An identifier, or the inside of a finished part. -/
abbrev Named := Word ⊕ Cond

/-- Also one of several definitions, by the sign and the name. -/
abbrev OneNamed := (Word × Word) ⊕ Named

/-- Also all of several definitions. -/
abbrev AllNamed := (Word × Word) ⊕ OneNamed

namespace Atom

/-- The elements of an atom. -/
def elements : Atom → List Cond
  | .ident name => [name.token .id]
  | .oneOf sign name => [sign.token .one, name.token .id]
  | .allOf sign name => [sign.token .all, name.token .id]

/-- The node that an atom stands for. -/
def node (d : Detection) : Atom → ConfigM Cond
  | .ident name => d.parseIdentifier (name.token .id)
  | .oneOf _ name => d.parseSeveral .disj (name.token .id)
  | .allOf _ name => d.parseSeveral .conj (name.token .id)

/-- The atom as a part that is not yet taken up. -/
def pending : Atom → AllNamed
  | .allOf sign name => .inl (sign, name)
  | .oneOf sign name => .inr (.inl (sign, name))
  | .ident name => .inr (.inr (.inl name))

end Atom

/-- The elements of what is left after operators over several definitions. -/
def Named.elements : Named → List Cond :=
  Sum.elim (fun name => [name.token .id]) (fun c => [.group c])

/-- The elements of what is left after operators over all of several definitions. -/
def OneNamed.elements : OneNamed → List Cond :=
  Sum.elim (fun (sign, name) => [sign.token .one, name.token .id]) Named.elements

/-- The elements of what is left after groups. -/
def AllNamed.elements : AllNamed → List Cond :=
  Sum.elim (fun (sign, name) => [sign.token .all, name.token .id]) OneNamed.elements

theorem Atom.elements_ne_nil (a : Atom) : a.elements ≠ [] := by
  cases a <;> simp [Atom.elements]

theorem Atom.elements_pending (a : Atom) : a.pending.elements = a.elements := by
  cases a <;> rfl

/-- Takes up an atom over all of several definitions. -/
def AllNamed.take (d : Detection) : AllNamed → ConfigM OneNamed :=
  Sum.elim
    (fun (sign, name) => do return .inr (.inr (← Atom.node d (.allOf sign name)).inside)) pure

/-- Takes up an atom over one of several definitions. -/
def OneNamed.take (d : Detection) : OneNamed → ConfigM Named :=
  Sum.elim (fun (sign, name) => do return .inr (← Atom.node d (.oneOf sign name)).inside) pure

/-- Takes up an identifier. -/
def Named.take (d : Detection) : Named → ConfigM Cond :=
  Sum.elim (fun name => do return (← Atom.node d (.ident name)).inside) pure

/-- Takes up the atoms of an expression, kind after kind. What is left are the insides of finished
parts. -/
def Expr.resolve (d : Detection) (e : Expr AllNamed) : ConfigM (Expr Cond) := do
  let e ← e.mapM (AllNamed.take d)
  let e ← e.mapM (OneNamed.take d)
  e.mapM (Named.take d)

/-! ## The reduction of operators -/

theorem Leaves.sweeps_pure (alone : ∀ a, ∀ c ∈ f a, Leaves sweep c) : Sweeps sweep f pure f := by
  intro a rest
  have alone := alone a
  simp only [pure_bind]
  generalize f a = cs at alone ⊢
  induction cs with
  | nil => simp
  | cons c cs ih =>
    rw [cons_append, alone c mem_cons_self, ih fun c member => alone c (mem_cons_of_mem _ member)]
    simp

/-- A sweep over two kinds of parts, that takes up the first kind and leaves the second. -/
theorem Sweeps.left {h : α → ConfigM β} {g : β → List Cond} (taken : Sweeps sweep f h g)
    (left : ∀ b, ∀ c ∈ g b, Leaves sweep c) : Sweeps sweep (Sum.elim f g) (Sum.elim h pure) g := by
  rintro (a | b) rest
  · exact taken a rest
  · exact Leaves.sweeps_pure left b rest

section Operators

variable (d : Detection)

theorem sweeps_allOf : Sweeps (reduceBefore .all (d.parseSeveral .conj)) AllNamed.elements
    (AllNamed.take d) OneNamed.elements := by
  refine Sweeps.left ?_ ?_
  · rintro ⟨sign, name⟩ rest
    rw [cons_append, cons_append, nil_append, reduceBefore_token, Detection.parseSeveral_eq_group]
    simp [Atom.node, OneNamed.elements, Named.elements]
  · rintro (⟨sign, name⟩ | name | c) x member <;>
      simp only [OneNamed.elements, Named.elements, Sum.elim_inl, Sum.elim_inr, mem_cons,
        not_mem_nil, or_false] at member
    · rcases member with rfl | rfl <;> exact leaves_reduceBefore rfl
    · exact member ▸ leaves_reduceBefore rfl
    · exact member ▸ leaves_reduceBefore rfl

theorem sweeps_oneOf : Sweeps (reduceBefore .one (d.parseSeveral .disj)) OneNamed.elements
    (OneNamed.take d) Named.elements := by
  refine Sweeps.left ?_ ?_
  · rintro ⟨sign, name⟩ rest
    rw [cons_append, cons_append, nil_append, reduceBefore_token, Detection.parseSeveral_eq_group]
    simp [Atom.node, Named.elements]
  · rintro (name | c) x member <;>
      simp only [Named.elements, Sum.elim_inl, Sum.elim_inr, mem_singleton] at member <;>
      exact member ▸ leaves_reduceBefore rfl

theorem sweeps_ident : Sweeps (reduceAlone .id d.parseIdentifier) Named.elements (Named.take d)
    fun c => [.group c] := by
  refine Sweeps.left ?_ ?_
  · intro name rest
    rw [cons_append, nil_append, reduceAlone_token, Detection.parseIdentifier_eq_group]
    simp [Atom.node]
  · intro c x member
    exact mem_singleton.mp member ▸ leaves_reduceAlone rfl

end Operators

theorem Factor.isKind_tree (x : Factor Cond) (k : TokenKind) :
    (x.tree .group).isKind k = false := by
  rcases x with ⟨_ | w, c⟩ <;> rfl

theorem sweeps_not : Sweeps (reduceBefore .not fun c => pure (.not [c]))
    (Factor.elements fun c => [.group c]) pure fun x => [x.tree .group] := by
  rintro ⟨_ | w, c⟩ rest
  · exact leaves_reduceBefore rfl rest
  · exact reduceBefore_token w (.group c) rest

theorem reduceBefore_not (e : Expr Cond) :
    reduceBefore .not (fun c => pure (.not [c])) (e.elements fun c => [.group c]) =
      pure (Chain.elements .or (Chain.elements .and fun x => [x.tree .group]) e) := by
  have terms := sweeps_not.chain .and (leaves_reduceBefore_token rfl)
  have whole := (terms.chain .or (leaves_reduceBefore_token rfl)) e []
  have same : Chain.mapM (Chain.mapM pure) e = pure e := by
    rw [funext Chain.mapM_pure, Chain.mapM_pure]
  rw [same, append_nil] at whole
  rw [Expr.elements, whole]
  simp [reduceBefore]

section Between

variable {k : TokenKind} {node : Cond → Cond → Cond}

theorem reduceBetween_of_isKind {c right : Cond} (sign : c.isKind k = true) (left : Cond)
    (rest : List Cond) :
    reduceBetween k node left (c :: right :: rest) =
      reduceBetween k node (node left right) rest := by
  rw [reduceBetween.eq_def]
  simp [sign]

theorem reduceBetween_of_not_isKind {c : Cond} (other : c.isKind k = false) (left : Cond)
    (rest : List Cond) :
    reduceBetween k node left (c :: rest) = (reduceBetween k node c rest).map (left :: ·) := by
  rw [reduceBetween.eq_def]
  simp [other]

theorem reduceBetween_chain (f : α → Cond) (others : List (Word × α)) (left : Cond)
    (rest : List Cond) :
    reduceBetween k node left ((others.flatMap fun (w, a) => [w.token k, f a]) ++ rest) =
      reduceBetween k node (others.foldl (fun t (_, a) => node t (f a)) left) rest := by
  induction others generalizing left with
  | nil => rfl
  | cons x others ih =>
    obtain ⟨w, a⟩ := x
    simp only [flatMap_cons, cons_append, nil_append, foldl_cons]
    rw [reduceBetween_of_isKind (by simp [Word.isKind_token]), ih]

/-- A chain at the front is reduced to its tree, and the reduction goes on from there. -/
theorem reduceInfix_elements_append (f : α → Cond) (c : Chain α)
    (first : (f c.first).isKind k = false) (rest : List Cond) :
    reduceInfix k node ((c.elements k fun a => [f a]) ++ rest) =
      reduceBetween k node (c.tree node f) rest := by
  rw [elements, append_assoc, singleton_append, reduceInfix.eq_def]
  simp only [first]
  exact reduceBetween_chain f c.rest (f c.first) rest

theorem reduceBetween_elements_append (f : α → Cond) (c : Chain α)
    (first : (f c.first).isKind k = false) (left : Cond) (rest : List Cond) :
    reduceBetween k node left ((c.elements k fun a => [f a]) ++ rest) =
      (reduceBetween k node (c.tree node f) rest).map (left :: ·) := by
  rw [elements, append_assoc, singleton_append, reduceBetween_of_not_isKind first,
    reduceBetween_chain]
  rfl

theorem reduceInfix_chain (f : α → Cond) (c : Chain α) (first : (f c.first).isKind k = false) :
    reduceInfix k node (c.elements k fun a => [f a]) = .ok [c.tree node f] := by
  rw [← append_nil (c.elements k _), reduceInfix_elements_append f c first]
  rfl

/-- In a chain of chains, the inner ones are reduced to their trees. -/
theorem reduceInfix_chains {k' : TokenKind} (differ : (k' == k) = false) (f : α → Cond)
    (single : ∀ a, (f a).isKind k = false) (c : Chain (Chain α)) :
    reduceInfix k node (c.elements k' (elements k fun a => [f a])) =
      .ok (c.elements k' fun t => [t.tree node f]) := by
  obtain ⟨first, others⟩ := c
  -- Behind a finished chain comes a sign of the outer kind, and behind it the next chain.
  have later : ∀ left, reduceBetween k node left
      (others.flatMap fun (w, t) => w.token k' :: t.elements k fun a => [f a]) =
        .ok (left :: others.flatMap fun (w, t) => [w.token k', t.tree node f]) := by
    induction others with
    | nil => exact fun left => rfl
    | cons x others ih =>
      intro left
      obtain ⟨w, t⟩ := x
      simp only [flatMap_cons, cons_append, nil_append]
      rw [reduceBetween_of_not_isKind (by rw [Word.isKind_token, differ]),
        reduceBetween_elements_append f t (single t.first), ih]
      rfl
  rw [elements, reduceInfix_elements_append f first (single first.first), later]
  rfl

end Between

theorem Chain.isKind_tree {j : Junction} {f : α → Cond} (c : Chain α) {k : TokenKind}
    (single : ∀ a, (f a).isKind k = false) :
    (c.tree (fun a b => j.build none [a, b]) f).isKind k = false := by
  obtain ⟨first, others⟩ := c
  rcases eq_nil_or_concat others with rfl | ⟨others, x, rfl⟩
  · exact single first
  · rw [tree, concat_eq_append, foldl_append]
    cases j <;> rfl

/-- The tree of a term of finished factors. -/
def Term.tree (t : Term Cond) : Cond :=
  Chain.tree (fun a b => .all none [a, b]) (Factor.tree .group) t

theorem reduceInfix_and (e : Expr Cond) : reduceInfix .and (fun a b => .all none [a, b])
        (elements .or (elements .and fun x => [x.tree .group]) e) =
      .ok (elements .or (fun t => [Term.tree t]) e) :=
  reduceInfix_chains rfl (Factor.tree .group) (fun x => x.isKind_tree .and) e

theorem reduceInfix_or (e : Expr Cond) :
    reduceInfix .or (fun a b => .any [a, b]) (elements .or (fun t => [Term.tree t]) e) =
      .ok [e.tree .group] :=
  reduceInfix_chain Term.tree e
    (isKind_tree (j := .conj) e.first fun x => x.isKind_tree .or)

/-- The reduction of operators takes up the atoms and ends with one node, the expression's tree. -/
theorem reduceOperators_expr (d : Detection) (e : Expr AllNamed) :
    reduceOperators d (e.elements AllNamed.elements) = do return [(← e.resolve d).tree .group] := by
  have allOf := fun e => (sweeps_allOf d).expr
    (fun k sign w => leaves_reduceBefore_token (by revert k; decide) w) rfl e
  have oneOf := fun e => (sweeps_oneOf d).expr
    (fun k sign w => leaves_reduceBefore_token (by revert k; decide) w) rfl e
  have ident := fun e => (sweeps_ident d).expr
    (fun k sign w => leaves_reduceAlone (by rw [Word.isKind_token]; revert k; decide)) rfl e
  simp only [reduceOperators, Expr.resolve, allOf, oneOf, ident, reduceBefore_not, reduceInfix_and,
    reduceInfix_or, FaultM.ofExcept_ok, bind_assoc, pure_bind]

end SigmaQuery
