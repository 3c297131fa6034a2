import SigmaQuery.Proofs.RunLength
import SigmaQuery.Proofs.SimplifyMeaning

/-!
# Rewriting condition trees

The rules of the simplification, each by itself, applied to any node of a tree and in any order. All of
them keep the meaning; the rule that takes out what branches share does so where it leaves an atom in
every branch. The simplification is a chain of such rewritings, if every step that takes something out
leaves atoms.
-/

namespace SigmaQuery

open List

namespace Cond

/-! ## Branches that are not used up -/

/-- An atom is left in every branch. -/
def Factoring.leavesAtoms (f : Factoring) : Bool :=
  f.branches.all fun b => anyHasAtom b.2

/-- If the node is reduced by taking out what its branches share, an atom is left in every branch. -/
def leavesAtoms (n : Cond) : Bool :=
  n.factoring?.all Factoring.leavesAtoms

theorem Factoring.not_forgets_of_leavesAtoms {f : Factoring} (h : f.leavesAtoms = true)
    (v : Valuation) : ¬ f.Forgets v := by
  rintro ⟨-, usedUp, -⟩
  obtain ⟨b, member, free⟩ := mem_map.mp usedUp
  have left : anyHasAtom b.2 = true := all_eq_true.mp h b member
  rw [Junction.join_eq_none_iff, ← meanings_eq_map, meanings_eq_none_iff, left] at free
  cases free

/-! ## Rewriting -/

/-- One rewriting somewhere in a tree. -/
inductive Rewrites : Cond → Cond → Prop
  /-- An operand that adds nothing is left out, or a junction is replaced by its operands. -/
  | tidy {j : Junction} {o : Option Nat} {items : List Cond} {c : Cond}
      (step : Tidied j o items c) : Rewrites (j.build o items) c
  /-- Two negations cancel each other, or a negation turns a test for an empty field around. -/
  | negation {items : List Cond} {c : Cond} (step : reduceNot items = .ok (some c)) :
      Rewrites (.not items) c
  /-- What all branches share is taken out. -/
  | factor {j : Junction} (o : Option Nat) {items : List Cond} {f : Factoring}
      (found : factoringOf j items = some f) (left : f.leavesAtoms = true) :
      Rewrites (j.build o items) (f.result o)
  /-- The brackets are taken off. -/
  | strip {t bare : Cond} (stripped : t.strip = .ok bare) : Rewrites t bare
  /-- Brackets are put on. -/
  | bracket (t : Cond) : Rewrites t t.bracket
  | operand (j : Junction) (o : Option Nat) (before after : List Cond) {c d : Cond}
      (inner : Rewrites c d) :
      Rewrites (j.build o (before ++ c :: after)) (j.build o (before ++ d :: after))
  | negated (before after : List Cond) {c d : Cond} (inner : Rewrites c d) :
      Rewrites (.not (before ++ c :: after)) (.not (before ++ d :: after))
  | inside {c d : Cond} (inner : Rewrites c d) : Rewrites (.group c) (.group d)

/-- A chain of rewritings. -/
abbrev RewritesTo : Cond → Cond → Prop :=
  Relation.ReflTransGen Rewrites

theorem bracketwise_unshared : Bracketwise fun c d => d.unshared = c.unshared where
  junction j {o items ds} each := by
    have row : unsharedAll ds = unsharedAll items := by
      induction each with
      | nil => rfl
      | cons here _ ih => rw [unsharedAll, unsharedAll, here, ih]
    cases j <;> simp only [unshared, Junction.build, row]
  same _ := rfl

theorem unshared_bracket (c : Cond) : c.bracket.unshared = c.unshared :=
  bracketwise_unshared.bracket c

variable {c a b t : Cond} {xs : List Cond} {steps : List Step}

theorem forall_mem_replace {P : Cond → Prop} {before after : List Cond} {d : Cond} (new : P d)
    (old : ∀ x ∈ before ++ c :: after, P x) : ∀ x ∈ before ++ d :: after, P x := by
  rw [forall_mem_append, forall_mem_cons] at old ⊢
  exact ⟨old.1, new, old.2.2⟩

theorem Rewrites.unshared (h : a.Rewrites b) (tree : a.unshared = true) : b.unshared = true := by
  induction h with
  | tidy step => exact hereditary_unshared.tidied step tree
  | negation step => exact hereditary_unshared.negations tree step
  | factor o found left => exact hereditary_unshared.result found tree
  | strip stripped => exact nodewise_unshared.strip stripped tree
  | bracket t => rwa [unshared_bracket]
  | @operand j o before after c d inner ih =>
    have parts := hereditary_unshared.operand tree
    have here := ih (parts c (mem_append_right before mem_cons_self))
    exact hereditary_unshared.rebuild tree (forall_mem_replace here parts)
  | @negated before after c d inner ih =>
    have parts := (unsharedAll_iff _).mp tree
    have here := ih (parts c (mem_append_right before mem_cons_self))
    exact (unsharedAll_iff _).mpr (forall_mem_replace here parts)
  | inside inner ih => exact ih tree

theorem Rewrites.meaning_eq (h : a.Rewrites b) (tree : a.unshared = true) (v : Valuation) :
    b.meaning v = a.meaning v := by
  induction h with
  | tidy step => exact meaning_tidied v step (hereditary_unshared.operand tree)
  | negation step => exact meaning_reduceNot v step
  | @factor j o items f found left =>
    exact (meaning_result_iff v found (hereditary_unshared.operand tree)).mpr
      (f.not_forgets_of_leavesAtoms left v)
  | strip stripped => exact ((nodewise_meaning v).strip stripped).1
  | bracket t => exact (bracketwise_meaning v).bracket t
  | @operand j o before after c d inner ih =>
    have parts := hereditary_unshared.operand tree
    have here := ih (parts c (mem_append_right before mem_cons_self))
    rw [meaning_build, meaning_build, map_append, map_append, map_cons, map_cons, here]
  | @negated before after c d inner ih =>
    have parts := (unsharedAll_iff _).mp tree
    have here := ih (parts c (mem_append_right before mem_cons_self))
    rw [meaning, meaning, meanings_eq_map, meanings_eq_map, map_append, map_append,
      map_cons, map_cons, here]
  | inside inner ih => exact ih tree

/-- A chain of rewritings keeps the meaning, wherever in the tree and in whatever order the rules are
applied. -/
theorem RewritesTo.meaning_eq (h : a.RewritesTo b) (tree : a.unshared = true) :
    b.unshared = true ∧ ∀ v, b.meaning v = a.meaning v := by
  induction h with
  | refl => exact ⟨tree, fun _ => rfl⟩
  | tail _ last ih =>
    obtain ⟨middle, same⟩ := ih
    exact ⟨last.unshared middle, fun v => (last.meaning_eq middle v).trans (same v)⟩

/-! ## Runs are chains of rewritings -/

theorem rewrites_of_reduce? {n : Cond} (h : reduce? n = .ok (some c)) (atoms : n.leavesAtoms = true) :
    n.Rewrites c := by
  have junction : ∀ (j : Junction) (o : Option Nat) (items : List Cond),
      reduceJunction j o items = .ok (some c) → (j.build o items).leavesAtoms = true →
        (j.build o items).Rewrites c := by
    intro j o items reduced left
    rcases reduceJunction_cases reduced with ⟨-, step⟩ | ⟨plain, f, found, rfl⟩
    · exact .tidy step
    · rw [leavesAtoms, factoring?_build, if_pos plain, found] at left
      exact .factor o found left
  cases n with
  | all o items => exact junction .conj o items h atoms
  | any items => exact junction .disj none items h atoms
  | not items => exact .negation h
  | _ => exact absurd h (by simp [reduce?])

theorem rewritesTo_withOperands (h : Forall₂ RewritesTo t.operands xs) :
    t.RewritesTo (t.withOperands xs) := by
  cases t with
  | all o items => exact reflTransGen_row (.all o) (.operand .conj o) h []
  | any items => exact reflTransGen_row .any (.operand .disj none) h []
  | not items => exact reflTransGen_row .not .negated h []
  | _ => exact .refl

theorem stepwise_rewritesTo :
    Stepwise (fun _ => True) (fun s => s.1.leavesAtoms = true) RewritesTo where
  reduced _ _ := trivial
  operand _ _ := trivial
  step _ atoms step first := .head (rewrites_of_reduce? step atoms) first
  rebuild _ := rewritesTo_withOperands

theorem Settles.rewritesTo (h : Settles t steps c) (atoms : ∀ s ∈ steps, s.1.leavesAtoms = true) :
    t.RewritesTo c :=
  stepwise_rewritesTo.settles (fun _ _ => trivial) .trans h trivial atoms

/-- A simplification whose steps leave atoms is a chain of rewritings. -/
theorem Simplifies.rewritesTo {u : Cond} (h : t.Simplifies steps u)
    (atoms : ∀ s ∈ steps, s.1.leavesAtoms = true) : t.RewritesTo u := by
  obtain ⟨bare, c, stripped, settles, rfl⟩ := h
  exact .head (.strip stripped) ((settles.rewritesTo atoms).tail (.bracket c))

/-- The simplification of a tree is a run of steps. If each step that takes out what branches share
leaves an atom in every branch, the run is a chain of rewritings and the simplified tree means what the
tree means. And rewritings keep the meaning in every context and order. -/
theorem simplify_meaning_of_leavesAtoms {t u : Cond} (tree : t.unshared = true)
    (h : t.simplify = .ok u) :
    (∃ steps, t.Simplifies steps u) ∧
      (∀ steps, t.Simplifies steps u → (∀ s ∈ steps, s.1.leavesAtoms = true) →
        t.RewritesTo u ∧ ∀ v, u.meaning v = t.meaning v) ∧
      ∀ a b : Cond, a.unshared = true → a.RewritesTo b → ∀ v, b.meaning v = a.meaning v := by
  refine ⟨(simplify_eq_ok_iff tree).mp h, fun steps run atoms => ?_, ?_⟩
  · have chain := run.rewritesTo atoms
    exact ⟨chain, (chain.meaning_eq tree).2⟩
  · intro a b unshared chain
    exact (chain.meaning_eq unshared).2

/-- A conjunction of disjunctions that share an item, one of them with a double negation. -/
def sampleBranches : Cond :=
  .all none [.any [.item "a" "1", .item "b" "2"],
    .group (.any [.item "a" "1", .not [.not [.item "c" "3"]]])]

/-- The shared item is taken out of both disjunctions, and an item is left in each. -/
theorem simplify_meaning_of_leavesAtoms_sample :
    sampleBranches.unshared = true ∧
    sampleBranches.simplify =
      .ok (.group (.any [.item "a" "1", .group (.all none [.item "b" "2", .item "c" "3"])])) ∧
    ∀ v, (Cond.group (.any [.item "a" "1",
      .group (.all none [.item "b" "2", .item "c" "3"])])).meaning v = sampleBranches.meaning v := by
  have inner : Passes [.all none [.any [.item "b" "2"], .any [.not [.not [.item "c" "3"]]]]] _
      [.all none [.item "b" "2", .item "c" "3"]] :=
    Passes.operands (t := .all none [.any [.item "b" "2"], .any [.not [.not [.item "c" "3"]]]]) rfl
      (.reduce rfl (Passes.item _ _ (.reduce rfl (.reduce rfl (Passes.item _ _ .nil))))) .nil
  have first : Passes [.all none [.any [.item "a" "1", .item "b" "2"],
      .any [.item "a" "1", .not [.not [.item "c" "3"]]]]] _
      [.any [.item "a" "1", .all none [.item "b" "2", .item "c" "3"]]] :=
    .reduce rfl (.operands rfl (Passes.item _ _ inner) .nil)
  have second : Passes [.any [.item "a" "1", .all none [.item "b" "2", .item "c" "3"]]] []
      [.any [.item "a" "1", .all none [.item "b" "2", .item "c" "3"]]] :=
    Passes.operands (t := .any [.item "a" "1", .all none [.item "b" "2", .item "c" "3"]]) rfl
      (Passes.item _ _ (Passes.operands (t := .all none [.item "b" "2", .item "c" "3"]) rfl
        (Passes.item _ _ (Passes.item _ _ .nil)) .nil)) .nil
  have run : ∃ steps, sampleBranches.Simplifies steps (.group (.any [.item "a" "1",
      .group (.all none [.item "b" "2", .item "c" "3"])])) ∧ ∀ s ∈ steps, s.1.leavesAtoms = true := by
    refine ⟨_, ⟨_, _, rfl, .again (List.cons_ne_nil _ _) first (.done second), rfl⟩, ?_⟩
    decide
  obtain ⟨steps, simplifies, atoms⟩ := run
  have h : sampleBranches.simplify = _ := (simplify_eq_ok_iff rfl).mpr ⟨_, simplifies⟩
  exact ⟨rfl, h, ((simplify_meaning_of_leavesAtoms rfl h).2.1 steps simplifies atoms).2⟩

end Cond

end SigmaQuery
