import SigmaQuery.Proofs.Equality
import SigmaQuery.Proofs.RunLength
import SigmaQuery.Proofs.SameLeaves

/-!
# The normal form of condition trees

The passes of a simplification go on until one of them changes nothing. No rule applies to any node of
the tree that is left then, down to its leaves and brackets. What this says about a node is spelled out
here without the rules. A junction is *tidy* if it has several operands that are conditions, no two of
them the same, and they are not items and junctions of its own kind. It is *normal* if moreover its
operands are not all opposite junctions that have an operand of the first in common.
-/

namespace SigmaQuery

open List Bool

namespace Cond

/-! ## Normal nodes -/

/-- The node is a junction of this kind. -/
def Joins (j : Junction) (c : Cond) : Prop :=
  ∃ o items, c = j.build o items

/-- A junction of these operands needs no tidying up. -/
structure Tidy (j : Junction) (items : List Cond) : Prop where
  several : 2 ≤ items.length
  present : ∀ c ∈ items, c ≠ .absent
  distinct : items.Pairwise fun a b => a.same b = false ∧ b.same a = false
  mixed : ¬ ((∃ c ∈ items, c.Joins j) ∧ ∀ c ∈ items, c.Joins j ∨ c.isItem = true)

/-- All operands are opposite junctions, and an operand of the first is in each of the others. -/
inductive Shares (j : Junction) : List Cond → Cond → Prop
  | intro {first c : Cond} {rest : List Cond} (opposite : ∀ d ∈ first :: rest, d.Joins j.dual)
      (own : c ∈ first.operands) (others : ∀ d ∈ rest, c.memberOf d.operands = true) :
      Shares j (first :: rest) c

/-- A junction of these operands is tidy, and there is nothing to take out of it. -/
def NormalJunction (j : Junction) (items : List Cond) : Prop :=
  Tidy j items ∧ ∀ c, ¬ Shares j items c

/-- The node is a negation or a test for an empty field. -/
def isNegationOrTest : Cond → Bool
  | .not _ => true
  | .isNull _ => true
  | .notNull _ => true
  | _ => false

/-- The node is normal. A negation is if its operand is neither a negation nor a test for an empty
field. -/
def IsNormal : Cond → Prop
  | .all _ items => NormalJunction .conj items
  | .any items => NormalJunction .disj items
  | .not items => ∃ c, items = [c] ∧ c.isNegationOrTest = false
  | _ => True

/-- The node stands in the tree below junctions and negations only. -/
inductive Reaches : Cond → Cond → Prop
  | here (t : Cond) : Reaches t t
  | deeper {t c n : Cond} (member : c ∈ t.operands) (reached : Reaches c n) : Reaches t n

/-! ## Tidy junctions -/

variable {c n t : Cond} {j : Junction} {items : List Cond} {steps : List Step}

theorem isAbsent_iff : c.isAbsent = true ↔ c = .absent := by
  cases c <;> simp [isAbsent]

theorem isSome_parts?_iff : (j.parts? c).isSome = true ↔ c.Joins j := by
  constructor
  · intro h
    obtain ⟨⟨o, items⟩, parts⟩ := Option.isSome_iff_exists.mp h
    exact ⟨o, items, parts?_eq_some parts⟩
  · rintro ⟨o, items, rfl⟩
    cases j <;> rfl

theorem isToken_of_hashable (h : c.hashable = true) : c.isToken = false := by
  cases c with
  | token t => cases h
  | _ => rfl

/-- Nothing is left out as a repetition exactly if no node is the same as an earlier one. -/
theorem length_distinctFrom_eq_iff (seen items : List Cond) :
    (distinctFrom seen items).length = items.length ↔
      (∀ c ∈ items, c.memberOf seen = false) ∧ items.Pairwise fun a b => b.same a = false := by
  induction items generalizing seen with
  | nil => simp [distinctFrom]
  | cons c rest ih =>
    rw [distinctFrom, forall_mem_cons, pairwise_cons]
    by_cases repeated : c.memberOf seen = true
    · have shorter := length_distinctFrom_le seen rest
      rw [if_pos repeated, repeated, length_cons]
      constructor
      · intro equal
        omega
      · rintro ⟨⟨none, -⟩, -⟩
        cases none
    · rw [if_neg repeated, length_cons, length_cons, Nat.add_right_cancel_iff, ih]
      have fresh : ∀ d : Cond, d.memberOf (c :: seen) = false ↔
          d.same c = false ∧ d.memberOf seen = false := by
        intro d
        rw [memberOf, any_cons, or_eq_false_iff, ← memberOf]
      simp only [fresh, not_eq_true] at repeated ⊢
      constructor
      · rintro ⟨apart, later⟩
        exact ⟨⟨repeated, fun d member => (apart d member).2⟩, fun d member => (apart d member).1, later⟩
      · rintro ⟨⟨-, apart⟩, here, later⟩
        exact ⟨fun d member => ⟨here d member, apart d member⟩, later⟩

theorem length_distinct_eq_iff (trees : ∀ c ∈ items, c.unshared = true)
    (hashable : ∀ c ∈ items, c.hashable = true) : (distinct items).length = items.length ↔
      items.Pairwise fun a b => a.same b = false ∧ b.same a = false := by
  rw [distinct, length_distinctFrom_eq_iff]
  constructor
  · rintro ⟨-, later⟩
    refine later.imp_of_mem fun {a b} left right apart => ⟨?_, apart⟩
    -- the comparison is with the later node on the left, and it could have been the other way
    by_contra same
    rw [not_eq_false] at same
    rw [same_symm same (trees b right) (hashable b right)] at apart
    cases apart
  · intro apart
    refine ⟨fun c _ => rfl, apart.imp fun h => h.2⟩

theorem flattened?_eq_none_iff : flattened? j items = none ↔
      ¬ ((∃ c ∈ items, c.Joins j) ∧ ∀ c ∈ items, c.Joins j ∨ c.isItem = true) := by
  simp only [flattened?, ite_eq_right_iff, reduceCtorEq, imp_false, and_eq_true,
    any_eq_true, all_eq_true, or_eq_true, isSome_parts?_iff]

/-- A junction is plain exactly if it is tidy and its operands can be compared. -/
theorem isPlainJunction_iff (trees : ∀ c ∈ items, c.unshared = true) :
    isPlainJunction j items = true ↔ (∀ c ∈ items, c.hashable = true) ∧ Tidy j items := by
  simp only [isPlainJunction, and_eq_true, decide_eq_true_eq, not_eq_true',
    any_eq_false, all_eq_true, isAbsent_iff, beq_iff_eq, Option.isNone_iff_eq_none,
    flattened?_eq_none_iff]
  constructor
  · rintro ⟨⟨⟨⟨⟨several, -⟩, present⟩, hashable⟩, lengths⟩, mixed⟩
    exact ⟨hashable, several, present, (length_distinct_eq_iff trees hashable).mp lengths, mixed⟩
  · rintro ⟨hashable, tidy⟩
    have noToken : ∀ c ∈ items, ¬ c.isToken = true := by
      intro c member
      rw [isToken_of_hashable (hashable c member)]
      exact Bool.false_ne_true
    exact ⟨⟨⟨⟨⟨tidy.several, noToken⟩, tidy.present⟩, hashable⟩,
      (length_distinct_eq_iff trees hashable).mpr tidy.distinct⟩, tidy.mixed⟩

/-! ## Branches -/

section Branches

variable {j : Junction} {o o₁ : Option Nat} {items first : List Cond} {c : Cond}
  {rest : List (Option Nat × List Cond)}

theorem operands_branch (j : Junction) (b : Option Nat × List Cond) : (branch j b).operands = b.2 := by
  cases j <;> rfl

theorem branches?_of_joins (opposite : ∀ d ∈ items, d.Joins j.dual) :
    ∃ bs, branches? j items = some bs := by
  induction items with
  | nil => exact ⟨[], rfl⟩
  | cons d items ih =>
    obtain ⟨here, others⟩ := forall_mem_cons.mp opposite
    obtain ⟨b, parts⟩ := Option.isSome_iff_exists.mp (isSome_parts?_iff.mpr here)
    obtain ⟨bs, found⟩ := ih others
    exact ⟨b :: bs, by rw [branches?, parts, found]⟩

theorem shares_branches_iff :
    Shares j (((o₁, first) :: rest).map (branch j)) c ↔
      c ∈ first ∧ ∀ b ∈ rest, c.memberOf b.2 = true := by
  constructor
  · intro shares
    rw [map_cons] at shares
    cases shares with
    | intro opposite own others =>
      rw [operands_branch] at own
      refine ⟨own, fun b member => ?_⟩
      have there := others (branch j b) (mem_map_of_mem member)
      rwa [operands_branch] at there
  · rintro ⟨own, others⟩
    refine .intro ?_ (by rwa [operands_branch]) ?_
    · intro d member
      rw [← map_cons] at member
      obtain ⟨b, -, rfl⟩ := mem_map.mp member
      exact ⟨b.1, b.2, rfl⟩
    · intro d member
      obtain ⟨b, inRest, rfl⟩ := mem_map.mp member
      rw [operands_branch]
      exact others b inRest

/-- Junctions that share something are branches with shared operands. -/
theorem Shares.exists_branches (shares : Shares j items c) :
    ∃ o first rest, branches? j items = some ((o, first) :: rest) ∧
      items = ((o, first) :: rest).map (branch j) ∧ c ∈ first ∧ ∀ b ∈ rest, c.memberOf b.2 = true := by
  obtain ⟨bs, found⟩ : ∃ bs, branches? j items = some bs := by
    cases shares with
    | intro opposite _ _ => exact branches?_of_joins opposite
  have whole := branches?_map_branch found
  cases bs with
  | nil =>
    rw [whole] at shares
    cases shares
  | cons b rest =>
    obtain ⟨o, first⟩ := b
    rw [whole] at shares
    exact ⟨o, first, rest, found, whole, shares_branches_iff.mp shares⟩

theorem mem_shared_iff :
    c ∈ (first.filter fun c => rest.all fun b => c.memberOf b.2) ↔
      Shares j (((o₁, first) :: rest).map (branch j)) c := by
  rw [shares_branches_iff, mem_filter, all_eq_true]

theorem not_shares_of_factored (h : factored j o items = .ok none) : ∀ c, ¬ Shares j items c := by
  intro c shares
  obtain ⟨o₁, first, rest, found, whole, -⟩ := shares.exists_branches
  rw [whole] at shares
  have member := mem_shared_iff.mpr shares
  simp only [factored, found, List.isEmpty_iff] at h
  split at h
  · cases h
  · split at h
    · rename_i nothing
      rw [nothing] at member
      cases member
    · split at h
      · cases h
      · split at h <;> cases h

theorem any_isToken_branches {bs : List (Option Nat × List Cond)}
    (tokenless : ∀ d ∈ bs.map (branch j), ∀ x ∈ d.operands, x.isToken = false) :
    (bs.any fun b => b.2.any isToken) = false := by
  rw [any_eq_false]
  intro b member someToken
  obtain ⟨x, inside, token⟩ := any_eq_true.mp someToken
  have free := tokenless (branch j b) (mem_map_of_mem member) x
  rw [operands_branch] at free
  rw [free inside] at token
  cases token

theorem factored_of_not_shares (tokenless : ∀ d ∈ items, ∀ x ∈ d.operands, x.isToken = false)
    (nothing : ∀ c, ¬ Shares j items c) : factored j o items = .ok none := by
  unfold factored
  split
  · rfl
  · rfl
  · rename_i o₁ first rest found
    obtain rfl := branches?_map_branch found
    have empty : (first.filter fun c => rest.all fun b => c.memberOf b.2) = [] :=
      eq_nil_iff_forall_not_mem.mpr fun c member => nothing c (mem_shared_iff.mp member)
    simp only [any_isToken_branches tokenless, empty, isEmpty_nil, if_true, false_eq_true,
      if_false]

end Branches

/-! ## Where no rule applies -/

theorem reduceJunction_of_plain (o : Option Nat) (plain : isPlainJunction j items = true) :
    reduceJunction j o items = factored j o items := by
  simp only [isPlainJunction, and_eq_true, decide_eq_true_eq, not_eq_true', beq_iff_eq,
    Option.isNone_iff_eq_none] at plain
  obtain ⟨⟨⟨⟨⟨several, noToken⟩, present⟩, hashable⟩, lengths⟩, mixed⟩ := plain
  rcases items with _ | ⟨a, _ | ⟨b, rest⟩⟩
  · cases several
  · simp at several
  · simp [reduceJunction, noToken, present, hashable, lengths, mixed]

/-- A junction that is not plain is reduced, or it has an operand that cannot be compared. -/
theorem reduceJunction_of_not_plain (o : Option Nat) (rough : isPlainJunction j items = false) :
    (∃ c, reduceJunction j o items = .ok (some c)) ∨
      (∃ e, reduceJunction j o items = .error e) ∧ ∃ c ∈ items, c.hashable = false := by
  have step := reduceJunction_step j o items
  generalize reduceJunction j o items = r at step ⊢
  cases step with
  | empty | present | single | distinct | flattened => exact .inl ⟨_, rfl⟩
  | token known =>
    obtain ⟨c, member, token⟩ := any_eq_true.mp known
    refine .inr ⟨⟨_, rfl⟩, c, member, ?_⟩
    by_contra hashable
    rw [not_eq_false] at hashable
    rw [isToken_of_hashable hashable] at token
    cases token
  | unhashable noToken known =>
    obtain ⟨c, member, unhashable⟩ := all_eq_false.mp known
    exact .inr ⟨⟨_, rfl⟩, c, member, not_eq_true _ ▸ unhashable⟩
  | plain plain =>
    rw [plain] at rough
    cases rough

theorem normalJunction_of_stuck {o : Option Nat} (trees : ∀ c ∈ items, c.unshared = true)
    (stuck : reduceJunction j o items = .ok none) : NormalJunction j items := by
  cases plain : isPlainJunction j items with
  | true =>
    rw [reduceJunction_of_plain o plain] at stuck
    exact ⟨((isPlainJunction_iff trees).mp plain).2, not_shares_of_factored stuck⟩
  | false =>
    rcases reduceJunction_of_not_plain o plain with ⟨c, reduced⟩ | ⟨⟨e, failed⟩, -⟩
    · rw [stuck] at reduced
      cases reduced
    · rw [stuck] at failed
      cases failed

theorem reduceJunction_of_normal (o : Option Nat) (trees : ∀ c ∈ items, c.unshared = true)
    (hashable : ∀ c ∈ items, c.hashable = true)
    (tokenless : ∀ d ∈ items, ∀ x ∈ d.operands, x.isToken = false) (normal : NormalJunction j items) :
    reduceJunction j o items = .ok none := by
  rw [reduceJunction_of_plain o ((isPlainJunction_iff trees).mpr ⟨hashable, normal.1⟩)]
  exact factored_of_not_shares tokenless normal.2

theorem reduceNot_eq_none_iff (items : List Cond) :
    reduceNot items = .ok none ↔ ∃ c, items = [c] ∧ c.isNegationOrTest = false := by
  rcases items with _ | ⟨c, _ | ⟨d, rest⟩⟩
  · simp [reduceNot]
  · cases c with
    | not inner => rcases inner with _ | ⟨x, _ | ⟨y, more⟩⟩ <;> simp [reduceNot, isNegationOrTest]
    | isNull inner | notNull inner => cases inner <;> simp [reduceNot, isNegationOrTest]
    | _ => simp [reduceNot, isNegationOrTest]
  · simp [reduceNot]

theorem isNormal_of_stuck (tree : n.unshared = true) (stuck : reduce? n = .ok none) :
    n.IsNormal := by
  have parts : ∀ c ∈ n.operands, c.unshared = true :=
    fun c member => unshared_of_mem_operands tree member
  cases n with
  | all o items | any items => exact normalJunction_of_stuck parts stuck
  | not items => exact (reduceNot_eq_none_iff items).mp stuck
  | _ => exact trivial

/-- No rule applies to a normal node whose operands can be compared. -/
theorem reduce?_of_isNormal (tree : n.unshared = true)
    (hashable : ∀ c ∈ n.operands, c.hashable = true)
    (tokenless : ∀ d ∈ n.operands, ∀ x ∈ d.operands, x.isToken = false) (normal : n.IsNormal) :
    reduce? n = .ok none := by
  have parts : ∀ c ∈ n.operands, c.unshared = true :=
    fun c member => unshared_of_mem_operands tree member
  cases n with
  | all o items => exact reduceJunction_of_normal o parts hashable tokenless normal
  | any items => exact reduceJunction_of_normal none parts hashable tokenless normal
  | not items => exact (reduceNot_eq_none_iff items).mpr normal
  | _ => rfl

/-! ## The last pass -/

theorem Reaches.unshared (reached : t.Reaches n) (tree : t.unshared = true) :
    n.unshared = true := by
  induction reached with
  | here => exact tree
  | deeper member _ ih => exact ih (unshared_of_mem_operands tree member)

theorem Reaches.operand (reached : t.Reaches n) (member : c ∈ n.operands) : t.Reaches c := by
  induction reached with
  | here t => exact .deeper member (.here c)
  | deeper above _ ih => exact .deeper above (ih member)

/-- A pass without a step finds no rule that applies, at any node that it reaches. -/
theorem Passes.stuck {ts cs : List Cond} (h : Passes ts [] cs) :
    ∀ t ∈ ts, ∀ n, t.Reaches n → reduce? n = .ok none := by
  refine h.still fun t stuck below n reached => ?_
  cases reached with
  | here => exact stuck
  | deeper member reached => exact below _ member n reached

theorem withOperands_operands (t : Cond) : t.withOperands t.operands = t := by
  cases t <;> rfl

theorem passes_of_stuck (ts : List Cond)
    (stuck : ∀ t ∈ ts, ∀ n, t.Reaches n → reduce? n = .ok none) : Passes ts [] ts := by
  match ts, stuck with
  | [], _ => exact .nil
  | t :: rest, stuck =>
    have lighter := weights_operands_lt t
    have pos := weight_pos t
    have sum := weights_cons t rest
    obtain ⟨here, others⟩ := forall_mem_cons.mp stuck
    -- the recursion goes into the operands and down the row, and both are lighter
    have inner := passes_of_stuck t.operands fun c member n reached => here n (.deeper member reached)
    have passes := Passes.operands (here t (.here t)) inner (passes_of_stuck rest others)
    rwa [withOperands_operands] at passes
termination_by weights ts
decreasing_by all_goals omega

theorem settle_of_normal (tree : c.unshared = true)
    (normal : ∀ n, c.Reaches n → n.IsNormal ∧ ∀ x ∈ n.operands, x.hashable = true) :
    settle [] c = (.ok c, []) := by
  have stuck : ∀ n, c.Reaches n → reduce? n = .ok none := by
    intro n reached
    refine reduce?_of_isNormal (reached.unshared tree) (normal n reached).2 ?_ (normal n reached).1
    intro d member x inside
    exact isToken_of_hashable ((normal d (reached.operand member)).2 x inside)
  have last := passes_of_stuck [c] (forall_mem_singleton.mpr stuck)
  exact (Settles.done last).settle_eq tree

theorem Settles.unshared (h : Settles t steps c) (tree : t.unshared = true) :
    c.unshared = true := by
  induction h with
  | done last => exact (last.unshared_single tree).2
  | again some_step first later ih => exact ih (first.unshared_single tree).2

theorem Settles.stuck (h : Settles t steps c) : ∀ n, c.Reaches n → reduce? n = .ok none := by
  induction h with
  | @done t c last =>
    obtain rfl : c = t := singleton_inj.mp last.eq_of_nil
    exact last.stuck c (mem_singleton_self c)
  | again some_step first later ih => exact ih

/-- **The result of the simplification is in normal form**: where a tree is simplified, the passes end
with a tree all of whose nodes are normal, and the simplified tree is that tree with its brackets. And
the passes leave every tree as it is whose nodes are normal and can be compared. -/
theorem simplify_normal {t u : Cond} (tree : t.unshared = true) (h : t.simplify = .ok u) :
    (∃ bare c, t.strip = .ok bare ∧ settle [] bare = (.ok c, []) ∧ u = c.bracket ∧
      ∀ n, c.Reaches n → n.IsNormal) ∧
    ∀ c : Cond, c.unshared = true →
      (∀ n, c.Reaches n → n.IsNormal ∧ ∀ x ∈ n.operands, x.hashable = true) →
        settle [] c = (.ok c, []) := by
  refine ⟨?_, fun c own normal => settle_of_normal own normal⟩
  obtain ⟨steps, bare, c, stripped, settles, rfl⟩ := (simplify_eq_ok_iff tree).mp h
  have bareTree := nodewise_unshared.strip stripped tree
  refine ⟨bare, c, stripped, settles.settle_eq bareTree, rfl, fun n reached => ?_⟩
  exact isNormal_of_stuck (reached.unshared (settles.unshared bareTree)) (settles.stuck n reached)

/-- An item beside a disjunction that repeats it and negates a test for an empty field. -/
def repeatedItem : Cond :=
  .any [.item "a" "1", .any [.item "a" "1", .not [.isNull [.value "f"]]]]

/-- The inner disjunction is taken up, the item is left out where it is repeated, and the test is turned
around. -/
theorem simplify_normal_repeatedItem :
    repeatedItem.unshared = true ∧
    repeatedItem.simplify = .ok (.group (.any [.item "a" "1", .notNull [.value "f"]])) ∧
    ∃ bare c, repeatedItem.strip = .ok bare ∧ settle [] bare = (.ok c, []) ∧
      .group (.any [.item "a" "1", .notNull [.value "f"]]) = c.bracket ∧
      ∀ n, c.Reaches n → n.IsNormal := by
  have h : repeatedItem.simplify =
      .ok (.group (.any [.item "a" "1", .notNull [.value "f"]])) := by decide +kernel
  exact ⟨rfl, h, (simplify_normal rfl h).1⟩

end Cond

end SigmaQuery
