import SigmaQuery.Proofs.Definitions
import SigmaQuery.Proofs.Equality
import SigmaQuery.Proofs.Grammar
import SigmaQuery.Proofs.Reduction

/-!
# The precedence of operators

A condition is an expression whose operands are atoms and groups; a group is an expression of atoms
in brackets. The reduction of a search parses the groups first and then takes up the operators.
-/

namespace SigmaQuery

open List Config Atom

variable {α β : Type}

open FaultM

/-! ## Operands that can be taken up -/

/-- The parts of a chain. -/
def Chain.parts (c : Chain α) : List α :=
  c.first :: c.rest.map Prod.snd

/-- The operands of an expression. -/
def Expr.operands (e : Expr α) : List α :=
  Chain.parts e |>.flatMap fun t => (Chain.parts t).map Factor.operand

section Returning

variable {τ : Type} {view : Config → τ} {h : α → ConfigM β} {c : Chain α} {s : Config} {e : Expr α}

theorem Chain.keeps_mapM (keeps : ∀ a, Keeps view (h a)) (c : Chain α) :
    Keeps view (c.mapM h) := by
  have others := FaultM.keeps_mapM (f := Chain.signed h) (fun x => (keeps x.2).bind fun b =>
    keeps_pure _) c.rest
  exact (keeps c.first).bind fun first => others.bind fun rest => keeps_pure _

theorem Expr.keeps_mapM (keeps : ∀ a, Keeps view (h a)) (e : Expr α) : Keeps view (e.mapM h) := by
  have factors : ∀ x : Factor α, Keeps view (x.mapM h) := fun x =>
    (keeps x.operand).bind fun b => keeps_pure _
  exact Chain.keeps_mapM (Chain.keeps_mapM factors) e

theorem Chain.steady_signed (steady : ∀ a, Steady view (h a)) (x : Word × α) :
    Steady view (Chain.signed h x) :=
  (steady x.2).map (Prod.mk x.1)

theorem Chain.steady_mapM (steady : ∀ a, Steady view (h a)) (c : Chain α) :
    Steady view (c.mapM h) := by
  have others := FaultM.steady_mapM (Chain.steady_signed steady) c.rest
  exact (steady c.first).both others Chain.mk

theorem Chain.returns_mapM (steady : ∀ a, Steady view (h a))
    (returns : ∀ a ∈ c.parts, (h a).Returns s) : (c.mapM h).Returns s := by
  have signed := Chain.steady_signed steady
  have others : (c.rest.mapM (Chain.signed h)).Returns s := by
    refine FaultM.returns_mapM signed fun x member => ?_
    have := returns x.2 (mem_cons_of_mem _ (mem_map_of_mem member))
    exact this.map (Prod.mk x.1)
  exact (steady c.first).returns_both (FaultM.steady_mapM signed c.rest) Chain.mk
    (returns c.first mem_cons_self) others

theorem Chain.exists_of_yields_mapM {c' : Chain β} (made : (c.mapM h).Yields c') :
    ∀ b ∈ c'.parts, ∃ a ∈ c.parts, (h a).Yields b := by
  intro b member
  obtain ⟨first, rest, here, there, rfl⟩ := made.both
  rcases mem_cons.mp member with rfl | later
  · exact ⟨c.first, mem_cons_self, here⟩
  · obtain ⟨x, inRest, rfl⟩ := mem_map.mp later
    obtain ⟨y, known, madePart⟩ := there.exists_of_mapM x inRest
    obtain ⟨b, yields, rfl⟩ := madePart.map
    exact ⟨y.2, mem_cons_of_mem _ (mem_map_of_mem known), yields⟩

theorem Factor.steady_mapM (steady : ∀ a, Steady view (h a)) (x : Factor α) :
    Steady view (x.mapM h) :=
  (steady x.operand).map (Factor.mk x.negation)

theorem Expr.steady_mapM (steady : ∀ a, Steady view (h a)) (e : Expr α) :
    Steady view (e.mapM h) := by
  have terms := Chain.steady_mapM (Factor.steady_mapM steady)
  exact Chain.steady_mapM terms e

theorem Expr.returns_mapM (steady : ∀ a, Steady view (h a))
    (returns : ∀ a ∈ e.operands, (h a).Returns s) : (e.mapM h).Returns s := by
  have factors := Factor.steady_mapM steady
  refine Chain.returns_mapM (Chain.steady_mapM factors) fun t inExpr =>
    Chain.returns_mapM factors fun x inTerm => ?_
  have := returns x.operand (mem_flatMap.mpr ⟨t, inExpr, mem_map_of_mem inTerm⟩)
  exact this.map (Factor.mk x.negation)

theorem Expr.exists_of_yields_mapM {e' : Expr β} (made : (e.mapM h).Yields e') :
    ∀ b ∈ e'.operands, ∃ a ∈ e.operands, (h a).Yields b := by
  intro b member
  obtain ⟨t', inExpr', operand⟩ := mem_flatMap.mp member
  obtain ⟨x', inTerm', rfl⟩ := mem_map.mp operand
  obtain ⟨t, inExpr, madeTerm⟩ := Chain.exists_of_yields_mapM made t' inExpr'
  obtain ⟨x, inTerm, madeFactor⟩ := Chain.exists_of_yields_mapM madeTerm x' inTerm'
  obtain ⟨b, yields, rfl⟩ := madeFactor.map
  exact ⟨x.operand, mem_flatMap.mpr ⟨t, inExpr, mem_map_of_mem inTerm⟩, yields⟩

end Returning

theorem Atom.steady_node (d : Detection) (a : Atom) : Steady spent (a.node d) := by
  cases a with
  | ident name => exact d.steady_parseIdentifier _
  | oneOf sign name | allOf sign name => exact d.steady_parseSeveral _ _

theorem Atom.node_eq_group (d : Detection) (a : Atom) :
    a.node d = do return .group (← a.node d).inside := by
  cases a with
  | ident name => exact d.parseIdentifier_eq_group _
  | oneOf sign name | allOf sign name => exact d.parseSeveral_eq_group _ _

variable {c : Config} {d : Detection} {p : Cond → Prop} {k : TokenKind} {f : α → List Cond}

/-- Taking up one kind of atoms returns where these atoms can be taken up. The other operands stay
as they are. -/
theorem Expr.exists_take {h : α → ConfigM β} (steady : ∀ a, Steady spent (h a))
    {e : Expr (α ⊕ β)} (returns : ∀ a, .inl a ∈ e.operands → (h a).Returns c) :
    ∃ e' c', (e.mapM (Sum.elim h pure)).start c = (.ok e', c') ∧ c'.spent = c.spent ∧
      ∀ b ∈ e'.operands, .inr b ∈ e.operands ∨ ∃ a, (h a).Yields b := by
  have steady' : ∀ x : α ⊕ β, Steady spent (Sum.elim h pure x) := by
    rintro (a | b)
    · exact steady a
    · exact steady_pure b
  have returns' : ∀ x ∈ e.operands, (Sum.elim h pure x : ConfigM β).Returns c := by
    rintro (a | b) member
    · exact returns a member
    · exact ⟨b, c, rfl⟩
  obtain ⟨e', c', run⟩ := Expr.returns_mapM steady' returns'
  have kept := (Expr.steady_mapM steady' e).keeps c
  rw [run] at kept
  refine ⟨e', c', run, kept, fun b member => ?_⟩
  obtain ⟨a | b', known, yields⟩ := Expr.exists_of_yields_mapM ⟨c, c', run⟩ b member
  · exact .inr ⟨a, yields⟩
  · rw [show b = b' from Yields.of_pure yields]
    exact .inl known

/-- Where each atom of an expression can be taken up, the whole expression can. -/
theorem Expr.returns_resolve {e : Expr AllNamed}
    (returns : ∀ a : Atom, a.pending ∈ e.operands → (a.node d).Returns c) :
    (e.resolve d).Returns c := by
  -- The atoms over all of several definitions.
  obtain ⟨e₁, c₁, run₁, same₁, left₁⟩ := Expr.exists_take
    (h := fun x => do return .inr (.inr (← node d (.allOf x.1 x.2)).inside))
    (e := e) (c := c) (fun x => (steady_node d (.allOf x.1 x.2)).map _)
    (fun x member => (returns (.allOf x.1 x.2) member).map _)
  -- Those over one of several definitions, which were there before.
  obtain ⟨e₂, c₂, run₂, same₂, left₂⟩ := Expr.exists_take
    (h := fun x => do return .inr (← node d (.oneOf x.1 x.2)).inside)
    (e := e₁) (c := c₁) (fun x => (steady_node d (.oneOf x.1 x.2)).map _) (by
      intro x member
      rcases left₁ _ member with known | ⟨y, yields⟩
      · exact ((steady_node d (.oneOf x.1 x.2)).returns c c₁ same₁.symm
          (returns (.oneOf x.1 x.2) known)).map _
      · obtain ⟨n, _, impossible⟩ := yields.map
        cases impossible)
  -- The identifiers, which were there from the start.
  obtain ⟨e₃, c₃, run₃, _⟩ := Expr.exists_take
    (h := fun name => do return (← node d (.ident name)).inside)
    (e := e₂) (c := c₂) (fun name => (steady_node d (.ident name)).map _) (by
      intro name member
      rcases left₂ _ member with later | ⟨y, yields⟩
      · rcases left₁ _ later with known | ⟨y, yields⟩
        · exact ((steady_node d (.ident name)).returns c c₂ (same₂.trans same₁).symm
            (returns (.ident name) known)).map _
        · obtain ⟨n, _, impossible⟩ := yields.map
          cases impossible
      · obtain ⟨n, _, impossible⟩ := yields.map
        cases impossible)
  exact ⟨e₃, c₃, (start_bind_of_ok run₁).trans ((start_bind_of_ok run₂).trans run₃)⟩

/-! ## Groups -/

section Groups

variable (simplify : Cond → ConfigM Cond) (source : Except Fault (Option LogSource)) (d : Detection)

/-- Reduces the groups of a search, from left to right. -/
def reduceGroups (elements : List Cond) : ConfigM (List Cond) :=
  match _found : splitGroup? elements with
  | .error e => throw e
  | .ok none => pure elements
  | .ok (some g) => do
    let inner ← parseSearch simplify source d g.inside
    reduceGroups (g.before ++ .group inner :: g.after)
termination_by elements.length
decreasing_by
  have := length_of_splitGroup? _found
  simp only [length_append, length_cons]
  omega

/-- Reduces a search: its groups, then its operators. -/
def reduceSearch (elements : List Cond) : ConfigM (List Cond) := do
  reduceOperators d (← reduceGroups simplify source d elements)

/-- Joins a log source to what a reduction ends with, which must be one node. -/
def finishSearch : List Cond → ConfigM Cond
  | [root] => do
    let source ← FaultM.ofExcept source
    simplify (constrain source root)
  | _ => throw (.value .startNode)

variable {simplify source d} {elements : List Cond}

variable {e : Fault} {g : GroupSplit} {k : TokenKind} {c sign : Cond} {before elements : List Cond}

theorem parseSearch_of_error (split : splitGroup? elements = .error e) :
    parseSearch simplify source d elements = throw e := by
  rw [parseSearch]
  split <;> simp_all

theorem parseSearch_of_none (split : splitGroup? elements = .ok none) :
    parseSearch simplify source d elements =
      reduceOperators d elements >>= finishSearch simplify source := by
  rw [parseSearch]
  split
  · simp_all
  · rfl
  · simp_all

theorem parseSearch_of_some (split : splitGroup? elements = .ok (some g)) :
    parseSearch simplify source d elements = parseSearch simplify source d g.inside >>= fun inner =>
        parseSearch simplify source d (g.before ++ .group inner :: g.after) := by
  rw [parseSearch]
  split <;> simp_all

theorem reduceGroups_of_error (split : splitGroup? elements = .error e) :
    reduceGroups simplify source d elements = throw e := by
  rw [reduceGroups]
  split <;> simp_all

theorem reduceGroups_of_none (split : splitGroup? elements = .ok none) :
    reduceGroups simplify source d elements = pure elements := by
  rw [reduceGroups]
  split <;> simp_all

theorem reduceGroups_of_some (split : splitGroup? elements = .ok (some g)) :
    reduceGroups simplify source d elements =
      parseSearch simplify source d g.inside >>= fun inner =>
        reduceGroups simplify source d (g.before ++ .group inner :: g.after) := by
  rw [reduceGroups]
  split <;> simp_all

/-- The induction that follows the groups of a search: what is left is shorter. -/
theorem groups_induction {motive : List Cond → Prop}
    (error : ∀ elements e, splitGroup? elements = .error e → motive elements)
    (none : ∀ elements, splitGroup? elements = .ok none → motive elements)
    (some : ∀ elements g, splitGroup? elements = .ok (some g) → motive g.inside →
      (∀ inner, motive (g.before ++ .group inner :: g.after)) → motive elements)
    (elements : List Cond) : motive elements := by
  induction len : elements.length using Nat.strongRecOn generalizing elements with
  | ind n ih =>
    rcases split : splitGroup? elements with e | _ | g
    · exact error elements e split
    · exact none elements split
    · have shorter := length_of_splitGroup? split
      refine some elements g split (ih _ (by omega) _ rfl) fun inner => ih _ ?_ _ rfl
      simp only [length_append, length_cons]
      omega

theorem parseSearch_eq (elements : List Cond) :
    parseSearch simplify source d elements =
      reduceSearch simplify source d elements >>= finishSearch simplify source := by
  induction elements using groups_induction with
  | error elements e split =>
    rw [parseSearch_of_error split, reduceSearch, reduceGroups_of_error split]
    rfl
  | none elements split =>
    rw [parseSearch_of_none split, reduceSearch, reduceGroups_of_none split, pure_bind]
  | some elements g split _ rest =>
    rw [parseSearch_of_some split, reduceSearch, reduceGroups_of_some split]
    simp only [bind_assoc, rest, reduceSearch]

theorem splitKind?_cons (other : c.isKind k = false) (rest : List Cond) : splitKind? k (c :: rest) =
      (splitKind? k rest).map fun (before, sign, after) => (c :: before, sign, after) := by
  simp [splitKind?, other]

theorem splitKind?_append (others : ∀ c ∈ before, c.isKind k = false) (is : sign.isKind k = true)
    (after : List Cond) : splitKind? k (before ++ sign :: after) = some (before, sign, after) := by
  induction before with
  | nil => simp [splitKind?, is]
  | cons c before ih =>
    rw [cons_append, splitKind?_cons (others c mem_cons_self),
      ih fun x member => others x (mem_cons_of_mem _ member)]
    rfl

theorem isKind_of_splitKind? {after : List Cond}
    (h : splitKind? k elements = some (before, sign, after)) :
    sign.isKind k = true ∧ ∀ x ∈ before, x.isKind k = false := by
  induction elements generalizing before with
  | nil => cases h
  | cons c rest ih =>
    unfold splitKind? at h
    split at h
    · rename_i is
      cases h
      exact ⟨is, by simp⟩
    · rename_i other
      obtain ⟨⟨b, s, a⟩, found, same⟩ := Option.map_eq_some_iff.mp h
      cases same
      obtain ⟨is, others⟩ := ih found
      exact ⟨is, forall_mem_cons.mpr ⟨by simpa using other, others⟩⟩

theorem eq_of_splitGroup? (h : splitGroup? elements = .ok (some g)) :
    ∃ opening close, elements = g.before ++ opening :: (g.inside ++ close :: g.after) ∧
      opening.isKind .lpar = true ∧ close.isKind .rpar = true ∧
      (∀ x ∈ g.before, x.isKind .lpar = false) ∧ ∀ x ∈ g.inside, x.isKind .rpar = false := by
  unfold splitGroup? at h
  split at h
  · cases h
  · rename_i before opening rest opened
    split at h
    · cases h
    · split at h
      · cases h
      · cases h
      · rename_i inside close after _ closed
        cases h
        obtain ⟨opens, noOpening⟩ := isKind_of_splitKind? opened
        obtain ⟨closes, noClose⟩ := isKind_of_splitKind? closed
        exact ⟨opening, close, by rw [← eq_of_splitKind? closed, ← eq_of_splitKind? opened],
          opens, closes, noOpening, noClose⟩

theorem mem_of_splitGroup? (h : splitGroup? elements = .ok (some g)) :
    (∀ x ∈ g.before, x ∈ elements) ∧ (∀ x ∈ g.inside, x ∈ elements) ∧
      ∀ x ∈ g.after, x ∈ elements := by
  obtain ⟨opening, close, parts, -⟩ := eq_of_splitGroup? h
  rw [parts]
  simp only [mem_append, mem_cons]
  exact ⟨fun x member => .inl member, fun x member => .inr (.inr (.inl member)),
    fun x member => .inr (.inr (.inr (.inr member)))⟩

theorem splitGroup?_cons (opening : c.isKind .lpar = false) (closing : c.isKind .rpar = false)
    (rest : List Cond) : splitGroup? (c :: rest) =
      (splitGroup? rest).map fun g? => g?.map fun g => { g with before := c :: g.before } := by
  unfold splitGroup?
  rw [splitKind?_cons opening]
  rcases splitKind? .lpar rest with _ | ⟨before, sign, after⟩
  · rfl
  · simp only [Option.map_some, splitKind?_cons closing]
    rcases splitKind? .rpar before with _ | ⟨_, close, _⟩
    · rcases splitKind? .rpar after with _ | ⟨_ | ⟨x, inside⟩, _, _⟩ <;> rfl
    · rfl

theorem leaves_reduceGroups (opening : c.isKind .lpar = false) (closing : c.isKind .rpar = false) :
    Leaves (reduceGroups simplify source d) c := by
  intro rest
  induction rest using groups_induction with
  | error rest e split =>
    rw [reduceGroups_of_error split]
    refine reduceGroups_of_error ?_
    rw [splitGroup?_cons opening closing, split]
    rfl
  | none rest split =>
    rw [reduceGroups_of_none split]
    refine reduceGroups_of_none ?_
    rw [splitGroup?_cons opening closing, split]
    rfl
  | some rest g split _ later =>
    rw [reduceGroups_of_some split, reduceGroups_of_some (g := { g with before := c :: g.before })]
    · simp only [cons_append, later, bind_assoc]
    · rw [splitGroup?_cons opening closing, split]
      rfl

/-! ### What a search keeps -/

section Ensures

variable {I : Config → Prop} {P Q R : Cond → Prop} {node : Cond → ConfigM Cond} {ys : List Cond}

theorem ensures_reduceBefore {Q : Cond → Prop} (made : ∀ x, P x → Ensures I Q (node x))
    (kept : ∀ x, P x → Q x) (all : ∀ x ∈ elements, P x) :
    Ensures I (fun ys => ∀ y ∈ ys, Q y) (reduceBefore k node elements) := by
  fun_induction reduceBefore k node elements with
  | case1 => exact ensures_pure fun y member => absurd member (by simp)
  | case2 => exact ensures_throw _
  | case3 x _ operand rest ih =>
    have operandHas : P operand := all operand (by simp)
    refine (made operand operandHas).bind fun n has =>
      (ih fun y member => ?_).map fun ys later => ?_
    · exact all y (by simp [member])
    · exact forall_mem_cons.mpr ⟨has, later⟩
  | case4 x rest _ ih =>
    refine (ih fun y member => all y (mem_cons_of_mem _ member)).map fun ys later => ?_
    exact forall_mem_cons.mpr ⟨kept x (all x mem_cons_self), later⟩

theorem ensures_reduceAlone (made : ∀ x, P x → Ensures I P (node x)) (all : ∀ x ∈ elements, P x) :
    Ensures I (fun ys => ∀ y ∈ ys, P y) (reduceAlone k node elements) := by
  induction elements with
  | nil => exact ensures_pure all
  | cons x rest ih =>
    have others := ih fun y member => all y (mem_cons_of_mem _ member)
    have here := all x mem_cons_self
    unfold reduceAlone
    split
    · exact (made x here).bind fun n has => others.map fun ys later =>
        forall_mem_cons.mpr ⟨has, later⟩
    · exact (ensures_pure here).bind fun n has => others.map fun ys later =>
        forall_mem_cons.mpr ⟨has, later⟩

theorem forall_reduceBetween {node : Cond → Cond → Cond} (made : ∀ a b, P a → P b → P (node a b))
    {left : Cond} (h : reduceBetween k node left elements = .ok ys) (first : P left)
    (all : ∀ x ∈ elements, P x) : ∀ y ∈ ys, P y := by
  fun_induction reduceBetween k node left elements generalizing ys with
  | case1 left =>
    cases h
    simpa using first
  | case2 => cases h
  | case3 left x _ right rest ih =>
    refine ih h (made _ _ first (all right (by simp))) fun y member => all y (by simp [member])
  | case4 left x rest _ ih =>
    obtain ⟨zs, later, rfl⟩ := Cond.map_eq_ok h
    refine forall_mem_cons.mpr ⟨first, ih later (all x mem_cons_self) ?_⟩
    exact fun y member => all y (mem_cons_of_mem _ member)

theorem forall_reduceInfix {node : Cond → Cond → Cond} (made : ∀ a b, P a → P b → P (node a b))
    (h : reduceInfix k node elements = .ok ys) (all : ∀ x ∈ elements, P x) : ∀ y ∈ ys, P y := by
  unfold reduceInfix at h
  split at h
  · cases h
    exact all
  · split at h
    · cases h
    · exact forall_reduceBetween made h (all _ mem_cons_self)
        fun y member => all y (mem_cons_of_mem _ member)

/-- `P` is to hold of the elements up to the negations, and `Q` of those from there on. -/
theorem ensures_operators (several : ∀ j x, P x → Ensures I P (d.parseSeveral j x))
    (identifier : ∀ x, P x → Ensures I P (d.parseIdentifier x)) (negation : ∀ x, P x → Q (.not [x]))
    (kept : ∀ x, P x → Q x)
    (pair : ∀ (j : Junction) (a b : Cond), Q a → Q b → Q (j.build none [a, b]))
    (all : ∀ x ∈ elements, P x) :
    Ensures I (fun ys => ∀ y ∈ ys, Q y) (reduceOperators d elements) := by
  refine (ensures_reduceBefore (several .conj) (fun _ => id) all).bind fun _ all => ?_
  refine (ensures_reduceBefore (several .disj) (fun _ => id) all).bind fun _ all => ?_
  refine (ensures_reduceAlone identifier all).bind fun _ all => ?_
  refine (ensures_reduceBefore (fun x has => ensures_pure (negation x has)) kept all).bind
    fun _ trees => ?_
  refine (ensures_ofExcept fun ys h => forall_reduceInfix (pair .conj) h trees).bind
    fun _ trees => ?_
  exact ensures_ofExcept fun ys h => forall_reduceInfix (pair .disj) h trees

/-- What holds of parsed searches, of which groups are made, and of the elements of a search. -/
theorem ensures_search
    (operators : ∀ {elements}, (∀ x ∈ elements, P x) →
      Ensures I (fun ys => ∀ y ∈ ys, Q y) (reduceOperators d elements))
    (finish : ∀ roots, (∀ y ∈ roots, Q y) → Ensures I R (finishSearch simplify source roots))
    (group : ∀ u, R u → P (.group u)) (all : ∀ x ∈ elements, P x) :
    Ensures I R (parseSearch simplify source d elements) := by
  -- the induction follows the groups: once parsed, a group is an element like any other
  induction elements using groups_induction with
  | error elements e split =>
    rw [parseSearch_of_error split]
    exact ensures_throw e
  | none elements split =>
    rw [parseSearch_of_none split]
    exact (operators all).bind finish
  | some elements g split inside rest =>
    obtain ⟨before, between, after⟩ := mem_of_splitGroup? split
    rw [parseSearch_of_some split]
    refine (inside fun x member => all x (between x member)).bind fun inner made => ?_
    refine rest inner fun x member => ?_
    rcases mem_append.mp member with first | later
    · exact all x (before x first)
    · rcases mem_cons.mp later with rfl | last
      · exact group inner made
      · exact all x (after x last)

end Ensures

end Groups

/-! ## Conditions -/

/-- An operand of a condition: an atom, or an expression of atoms in brackets. -/
inductive Operand where
  | atom (a : Atom)
  | group (opening : Word) (inside : Expr Atom) (closing : Word)
deriving Repr

/-- The elements of an operand. -/
def Operand.elements : Operand → List Cond
  | .atom a => a.elements
  | .group opening inside closing =>
    opening.token .lpar :: (inside.elements Atom.elements ++ [closing.token .rpar])

/-- Takes up a group by parsing its inside. -/
def Operand.take (simplify : Cond → ConfigM Cond) (source : Except Fault (Option LogSource))
    (d : Detection) : Operand → ConfigM AllNamed
  | .atom a => pure a.pending
  | .group _ inside _ => do
    let inner ← parseSearch simplify source d (inside.elements Atom.elements)
    return .inr (.inr (.inr inner))

/-- A condition over definitions. -/
abbrev Condition := Expr Operand

theorem Chain.forall_mem_elements (parts : ∀ a, ∀ c ∈ f a, p c) (sign : ∀ w : Word, p (w.token k))
    (e : Chain α) : ∀ c ∈ e.elements k f, p c := by
  intro c member
  rw [Chain.elements, mem_append, mem_flatMap] at member
  rcases member with first | ⟨⟨w, a⟩, _, later⟩
  · exact parts _ c first
  · rcases mem_cons.mp later with rfl | later
    · exact sign w
    · exact parts a c later

/-- What holds of the operands' elements and of signs, holds of the elements of an expression. -/
theorem Expr.forall_mem_elements (operands : ∀ a, ∀ c ∈ f a, p c)
    (signs : ∀ k ∈ [TokenKind.not, .and, .or], ∀ w : Word, p (w.token k)) (e : Expr α) :
    ∀ c ∈ e.elements f, p c := by
  refine Chain.forall_mem_elements (fun t => Chain.forall_mem_elements (fun x => ?_)
    (signs .and (by simp)) t) (signs .or (by simp)) e
  rintro c member
  rcases mem_append.mp member with sign | operand
  · obtain ⟨w, _, rfl⟩ := Option.map_eq_some_iff.mp (Option.mem_toList.mp sign)
    exact signs .not (by simp) w
  · exact operands x.operand c operand

theorem Expr.elements_ne_nil (operands : ∀ a, f a ≠ []) (e : Expr α) : e.elements f ≠ [] := by
  simp [Expr.elements, Chain.elements, Factor.elements, operands]

theorem Atom.isKind_of_mem_elements (bracket : k = .lpar ∨ k = .rpar) (a : Atom) :
    ∀ c ∈ a.elements, c.isKind k = false := by
  rcases bracket with rfl | rfl <;> cases a <;> simp [elements, Word.isKind_token]

theorem Expr.isKind_of_mem_elements (bracket : k = .lpar ∨ k = .rpar) (e : Expr Atom) :
    ∀ c ∈ e.elements Atom.elements, c.isKind k = false := by
  refine e.forall_mem_elements (Atom.isKind_of_mem_elements bracket) fun k' sign w => ?_
  rw [Word.isKind_token]
  rcases bracket with rfl | rfl <;> revert k' <;> decide

section Conditions

variable (simplify : Cond → ConfigM Cond) (source : Except Fault (Option LogSource)) (d : Detection)

theorem splitGroup?_group (opening closing : Word) (inside : Expr Atom) (rest : List Cond) :
    splitGroup? (opening.token .lpar :: (inside.elements elements ++
        closing.token .rpar :: rest)) =
      .ok (some ⟨[], inside.elements elements, rest⟩) := by
  have open' : splitKind? .lpar (opening.token .lpar :: (inside.elements elements ++
      closing.token .rpar :: rest)) = some ([], opening.token .lpar, _) := rfl
  have close : splitKind? .rpar (inside.elements elements ++ closing.token .rpar :: rest) =
      some (inside.elements Atom.elements, closing.token .rpar, rest) :=
    splitKind?_append (inside.isKind_of_mem_elements (.inr rfl)) rfl rest
  have full : inside.elements Atom.elements ≠ [] := inside.elements_ne_nil Atom.elements_ne_nil
  rw [splitGroup?, open']
  generalize inside.elements elements = between at close full ⊢
  simp only [close]
  cases between with
  | nil => exact absurd rfl full
  | cons c cs => rfl

theorem sweeps_groups : Sweeps (reduceGroups simplify source d) Operand.elements
    (Operand.take simplify source d) AllNamed.elements := by
  rintro (a | ⟨opening, inside, closing⟩) rest
  · have left : Sweeps (reduceGroups simplify source d) elements pure elements :=
      Leaves.sweeps_pure fun a c member => leaves_reduceGroups
        (a.isKind_of_mem_elements (.inl rfl) c member)
        (a.isKind_of_mem_elements (.inr rfl) c member)
    simpa [Operand.elements, Operand.take, elements_pending] using left a rest
  · simp only [Operand.elements, cons_append, append_assoc, nil_append]
    rw [reduceGroups_of_some (splitGroup?_group opening closing inside rest)]
    simp only [nil_append, leaves_reduceGroups (c := .group _) rfl rfl _, Operand.take,
      bind_assoc, pure_bind]
    rfl

theorem reduceGroups_atoms (e : Expr Atom) : reduceGroups simplify source d (e.elements elements) =
      pure (e.elements elements) := by
  have left : Sweeps (reduceGroups simplify source d)
      (fun e : Expr Atom => e.elements elements) pure fun e => e.elements elements :=
    Leaves.sweeps_pure fun e c member => leaves_reduceGroups
      (e.isKind_of_mem_elements (.inl rfl) c member) (e.isKind_of_mem_elements (.inr rfl) c member)
  have stop : reduceGroups simplify source d [] = pure [] := reduceGroups_of_none rfl
  simpa [stop] using left e []

/-- The reduction of a condition parses its groups, takes up its atoms, and ends with one node, the
condition's tree. -/
theorem reduceSearch_condition (e : Condition) :
    reduceSearch simplify source d (e.elements Operand.elements) = do
      let e ← e.mapM (Operand.take simplify source d)
      return [(← e.resolve d).tree .group] := by
  have groups := (sweeps_groups simplify source d).expr
    (fun k sign w => leaves_reduceGroups (by rw [Word.isKind_token]; revert k; decide)
      (by rw [Word.isKind_token]; revert k; decide)) (reduceGroups_of_none rfl) e
  simp only [reduceSearch, groups, reduceOperators_expr, bind_assoc, pure_bind]

theorem parseSearch_condition (e : Condition) :
    parseSearch simplify source d (e.elements Operand.elements) =
      e.mapM (Operand.take simplify source d) >>= fun e =>
        e.resolve d >>= fun e => finishSearch simplify source [e.tree .group] := by
  rw [parseSearch_eq, reduceSearch_condition]
  simp only [bind_assoc, pure_bind]

theorem parseSearch_atoms (e : Expr Atom) : parseSearch simplify source d (e.elements elements) =
      (e.map pending).resolve d >>= fun e => finishSearch simplify source [e.tree .group] := by
  have operators := reduceOperators_expr d (e.map pending)
  rw [Expr.elements_map, funext elements_pending] at operators
  rw [parseSearch_eq, reduceSearch, reduceGroups_atoms, pure_bind, operators]
  simp only [bind_assoc, pure_bind]

theorem keeps_parseSearch (keeps : ∀ t, Keeps spent (simplify t)) (elements : List Cond) :
    Keeps spent (parseSearch simplify source d elements) := by
  intro c
  have stays : Stays (fun c' => c'.spent = c.spent) (parseSearch simplify source d elements) := by
    refine ensures_search (P := fun _ => True) (Q := fun _ => True) (fun _ => ?_) (fun roots _ => ?_)
      (fun _ _ => trivial) fun _ _ => trivial
    · exact ensures_operators (fun j x _ => (d.steady_parseSeveral j x).keeps.stays _)
        (fun x _ => (d.steady_parseIdentifier x).keeps.stays _) (fun _ _ => trivial)
        (fun _ _ => trivial) (fun _ _ _ _ _ => trivial) fun _ _ => trivial
    · unfold finishSearch
      split
      · exact (stays_ofExcept source).bind fun s => (keeps _).stays _
      · exact stays_throw _
  exact (stays c rfl).1

theorem keeps_take (keeps : ∀ t, Keeps spent (simplify t)) (o : Operand) :
    Keeps spent (o.take simplify source d) := by
  cases o with
  | atom a => exact keeps_pure _
  | group opening inside closing =>
    exact (keeps_parseSearch simplify source d keeps _).bind fun inner => keeps_pure _

end Conditions

theorem Condition.exists_of_yields_take {simplify : Cond → ConfigM Cond}
    {source : Except Fault (Option LogSource)} {e : Condition} {e' : Expr AllNamed}
    (made : (e.mapM (Operand.take simplify source d)).Yields e') {a : Atom}
    (member : a.pending ∈ e'.operands) : .atom a ∈ e.operands := by
  obtain ⟨o, known, yields⟩ := Expr.exists_of_yields_mapM made _ member
  cases o with
  | atom b =>
    have same : a.pending = b.pending := Yields.of_pure yields
    have : a = b := by
      cases a <;> cases b <;> simp_all [pending]
    exact this ▸ known
  | group opening inside closing =>
    obtain ⟨inner, _, same⟩ := yields.map
    cases a <;> cases same

/-- A condition of the grammar, whose atoms can be taken up and whose groups can be parsed, is
reduced to one node. It is the tree of the grammar over the nodes of the atoms and the parsed
groups, all of which are in brackets, and the search is finished from it. -/
theorem reduceSearch_tree (source : Except Fault (Option LogSource)) (d : Detection)
    (e : Condition) (c : Config)
    (groups : (e.mapM (Operand.take Config.simplify source d)).Returns c)
    (atoms : ∀ a, .atom a ∈ e.operands → (a.node d).Returns c) :
    (∀ a : Atom, a.node d = do return .group (← a.node d).inside) ∧ ∃ e₁ c₁ e₂ c₂,
      (e.mapM (Operand.take Config.simplify source d)).start c = (.ok e₁, c₁) ∧
      (e₁.resolve d).start c₁ = (.ok e₂, c₂) ∧
      (reduceSearch Config.simplify source d (e.elements Operand.elements)).start c =
        (.ok [e₂.tree .group], c₂) ∧
      (parseSearch Config.simplify source d (e.elements Operand.elements)).start c =
        (finishSearch Config.simplify source [e₂.tree .group]).start c₂ := by
  obtain ⟨e₁, c₁, run₁⟩ := groups
  have kept : c.spent = c₁.spent := by
    have := Expr.keeps_mapM (keeps_take Config.simplify source d Config.keeps_simplify) e c
    rw [run₁] at this
    exact this.symm
  obtain ⟨e₂, c₂, run₂⟩ : (e₁.resolve d).Returns c₁ := by
    refine Expr.returns_resolve fun a member => ?_
    refine (a.steady_node d).returns c c₁ kept (atoms a ?_)
    exact Condition.exists_of_yields_take ⟨c, c₁, run₁⟩ member
  have reduced : (reduceSearch Config.simplify source d (e.elements Operand.elements)).start c =
      (.ok [e₂.tree .group], c₂) := by
    rw [reduceSearch_condition, start_bind_of_ok run₁, start_bind_of_ok run₂]
    rfl
  refine ⟨Atom.node_eq_group d, e₁, c₁, e₂, c₂, run₁, run₂, reduced, ?_⟩
  rw [parseSearch_eq, start_bind_of_ok reduced]

/-! ## An example -/

theorem Config.lose_nil (c : Config) : c.lose [] = c := by
  have same : ∀ s : LogSource, { s with conditions := s.conditions.map (·.after []) } = s := by
    rintro ⟨name, category, product, service, index, indexField, _ | conditions⟩ <;> rfl
  simp [lose, same]

/-- Two definitions: a map of two fields, and a list of values. -/
def sampleDetection : Detection where
  definitions := [("a", .map [("f", "v"), ("g", "w")]), ("b", .list ["x"])]

/-- The condition `not a and 1 of them or (a)`. -/
def sampleCondition : Condition where
  first :=
    { first := ⟨some ⟨"not", 0⟩, .atom (.ident ⟨"a", 4⟩)⟩
      rest := [(⟨"and", 6⟩, ⟨none, .atom (.oneOf ⟨"1 of", 10⟩ ⟨"them", 15⟩)⟩)] }
  rest :=
    [(⟨"or", 20⟩,
      { first := ⟨none, .group ⟨"(", 23⟩ ⟨⟨⟨none, .ident ⟨"a", 24⟩⟩, []⟩, []⟩ ⟨")", 25⟩⟩
        rest := [] })]

/-- The condition of the first definition. -/
def sampleFields : Cond :=
  .all none [.item "f" "v", .item "g" "w"]

theorem parseSearch_sampleGroup :
    (parseSearch simplify (.ok none) sampleDetection
        [Word.token .id ⟨"a", 24⟩]).start .empty =
      (.ok (.group sampleFields), .empty) := by
  decide +kernel

/-- The condition with its group parsed. -/
def sampleParsed : Expr AllNamed where
  first :=
    { first := ⟨some ⟨"not", 0⟩, (Atom.ident ⟨"a", 4⟩).pending⟩
      rest := [(⟨"and", 6⟩, ⟨none, (Atom.oneOf ⟨"1 of", 10⟩ ⟨"them", 15⟩).pending⟩)] }
  rest := [(⟨"or", 20⟩, ⟨⟨none, .inr (.inr (.inr (.group sampleFields)))⟩, []⟩)]

theorem mapM_take_sample :
    (sampleCondition.mapM (Operand.take simplify (.ok none) sampleDetection)).start .empty =
      (.ok sampleParsed, .empty) := by
  have group : (Operand.take simplify (.ok none) sampleDetection
      (.group ⟨"(", 23⟩ ⟨⟨⟨none, .ident ⟨"a", 24⟩⟩, []⟩, []⟩ ⟨")", 25⟩)).start .empty =
        (.ok (.inr (.inr (.inr (.group sampleFields)))), .empty) :=
    start_bind_of_ok parseSearch_sampleGroup
  simp only [Expr.mapM, sampleCondition, Chain.mapM, Factor.mapM, Chain.signed, mapM_cons,
    mapM_nil, bind_assoc, pure_bind]
  exact start_bind_of_ok group

/-- The condition `not a and 1 of them or (a)` is reduced to its tree. -/
theorem reduceSearch_tree_sample :
    (sampleCondition.mapM
      (Operand.take Config.simplify (.ok none) sampleDetection)).Returns .empty ∧
    (∀ a, .atom a ∈ sampleCondition.operands → (a.node sampleDetection).Returns .empty) ∧
    (reduceSearch Config.simplify (.ok none) sampleDetection
        (sampleCondition.elements Operand.elements)).start .empty =
      (.ok [.any [
        .all none [
          .not [.group sampleFields],
          .group (.any [.group sampleFields, .group (.any [.value "x"])])],
        .group (.group sampleFields)]], .empty) := by
  have groups : (sampleCondition.mapM
      (Operand.take Config.simplify (.ok none) sampleDetection)).Returns .empty :=
    ⟨_, _, mapM_take_sample⟩
  have atoms : ∀ a, .atom a ∈ sampleCondition.operands →
      (a.node sampleDetection).Returns .empty := by
    intro a member
    have known : a = .ident ⟨"a", 4⟩ ∨ a = .oneOf ⟨"1 of", 10⟩ ⟨"them", 15⟩ := by
      simpa [sampleCondition, Expr.operands, Chain.parts] using member
    rcases known with rfl | rfl
    · exact ⟨_, _, rfl⟩
    · exact ⟨_, _, rfl⟩
  refine ⟨groups, atoms, ?_⟩
  obtain ⟨-, e₁, c₁, e₂, c₂, run₁, run₂, reduced, -⟩ :=
    reduceSearch_tree (.ok none) sampleDetection sampleCondition .empty groups atoms
  rw [mapM_take_sample] at run₁
  cases run₁
  cases run₂
  exact reduced

end SigmaQuery
