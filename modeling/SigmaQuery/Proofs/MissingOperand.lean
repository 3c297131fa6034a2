import SigmaQuery.Proofs.NormalForm
import SigmaQuery.Proofs.Atoms
import SigmaQuery.Proofs.RuleOutcome

/-!
# Operands that cannot be taken out

What all branches of a junction share is taken out of each of them, once for each time that it stands in
the first. The branches have not been tidied up by then, so an operand may stand in the first branch
twice and in another one once. Then the second copy is not found there and the rule fails. In the trees
that are built from searches no rule fails in another way.
-/

namespace SigmaQuery

open List

namespace Cond

/-! ## Well-formed trees -/

/-- The operand of a test: one field, named by a text or a whole number. -/
def isTestedField : List Cond → Bool
  | [.value f] => f.isPlain
  | _ => false

mutual

/-- The tree is made of junctions, negations with one operand, tests of one field and brackets. Its
leaves are texts, whole numbers, and items with a text, a whole number or a list of these. -/
def wellFormed : Cond → Bool
  | .absent => true
  | .all o items => o.isNone && wellFormedAll items
  | .any items => wellFormedAll items
  | .not items => items.length == 1 && wellFormedAll items
  | .isNull items => isTestedField items
  | .notNull items => isTestedField items
  | .group inner => wellFormed inner
  | .seq _ => false
  | .item f v => f.hashable && v.isFieldValue
  | .value v => v.isPlain
  | .token _ => false

/-- The same for several trees. -/
def wellFormedAll : List Cond → Bool
  | [] => true
  | c :: rest => wellFormed c && wellFormedAll rest

end

theorem wellFormedAll_iff (items : List Cond) :
    wellFormedAll items = true ↔ ∀ c ∈ items, c.wellFormed = true :=
  each_iff (wellFormedAll · = true) rfl (fun _ _ => Bool.and_eq_true_iff) items

theorem wellFormed_build_iff (j : Junction) (o : Option Nat) (items : List Cond) :
    (j.build o items).wellFormed = true ↔
      (j = .conj → o = none) ∧ ∀ c ∈ items, c.wellFormed = true := by
  rw [← wellFormedAll_iff]
  cases j <;> simp [Junction.build, wellFormed]

variable {items cs : List Cond} {v : Value} {c t x : Cond}

theorem isTestedField_iff :
    isTestedField items = true ↔ ∃ f : Value, items = [.value f] ∧ f.isPlain = true := by
  constructor
  · intro h
    unfold isTestedField at h
    split at h
    · exact ⟨_, rfl, h⟩
    · cases h
  · rintro ⟨f, rfl, plain⟩
    exact plain

theorem hashable_of_isPlain (plain : v.isPlain = true) : v.hashable = true := by
  cases v with
  | list _ | map _ => cases plain
  | _ => rfl

theorem comparable_of_isFieldValue (plain : v.isFieldValue = true) : v.comparable = true := by
  cases v with
  | list vs =>
    rw [Value.isFieldValue, all_eq_true] at plain
    rw [Value.comparable, all_eq_true]
    exact fun w member => hashable_of_isPlain (plain w member)
  | _ => exact Value.comparable_of_hashable (hashable_of_isPlain plain)

theorem hashable_of_wellFormed (h : c.wellFormed = true) : c.hashable = true := by
  cases c with
  | item f v =>
    obtain ⟨field, value⟩ := Bool.and_eq_true_iff.mp h
    rw [hashable_item_eq, field, comparable_of_isFieldValue value]
    rfl
  | value v => exact hashable_of_isPlain h
  | seq _ | token _ => cases h
  | _ => rfl

mutual

theorem plain_of_wellFormed {t : Cond} (h : t.wellFormed = true) : t.Plain := by
  match t, h with
  | .absent, _ => exact hereditary_plain.absent
  | .all o items, h =>
    obtain ⟨own, parts⟩ := (wellFormed_build_iff .conj o items).mp h
    obtain rfl := own rfl
    exact hereditary_plain.junction .conj (plain_of_wellFormedAll parts)
  | .any items, h =>
    exact hereditary_plain.junction .disj (plain_of_wellFormedAll ((wellFormedAll_iff items).mp h))
  | .not items, h =>
    rw [wellFormed, Bool.and_eq_true] at h
    have parts := plain_of_wellFormedAll ((wellFormedAll_iff items).mp h.2)
    refine ⟨(unsharedAll_iff items).mpr fun c member => (parts c member).tree, fun a inside => ?_⟩
    obtain ⟨c, member, own⟩ := mem_atomsAll_iff.mp inside
    exact (parts c member).hashable a own
  | .isNull items, h | .notNull items, h =>
    obtain ⟨f, rfl, plain⟩ := isTestedField_iff.mp h
    exact ⟨rfl, forall_mem_singleton.mpr (hashable_of_isPlain plain)⟩
  | .group inner, h =>
    obtain ⟨tree, hashable⟩ : inner.Plain := plain_of_wellFormed h
    exact ⟨tree, hashable⟩
  | .item f v, h =>
    rw [wellFormed, Bool.and_eq_true] at h
    refine ⟨rfl, forall_mem_singleton.mpr ?_⟩
    rw [Atom.hashable, h.1, comparable_of_isFieldValue h.2]
    rfl
  | .value v, h => exact ⟨rfl, forall_mem_singleton.mpr (hashable_of_isPlain h)⟩

theorem plain_of_wellFormedAll {items : List Cond} (h : ∀ c ∈ items, c.wellFormed = true) :
    ∀ c ∈ items, c.Plain := by
  match items, h with
  | [], _ => exact forall_mem_nil _
  | c :: rest, h =>
    obtain ⟨here, others⟩ := forall_mem_cons.mp h
    exact forall_mem_cons.mpr ⟨plain_of_wellFormed here, plain_of_wellFormedAll others⟩

end

theorem reduceNot_of_wellFormed (h : (Cond.not items).wellFormed = true) :
    reduceNot items = .ok none ∨ ∃ c, reduceNot items = .ok (some c) ∧ c.wellFormed = true := by
  rw [wellFormed, Bool.and_eq_true, beq_iff_eq, length_eq_one_iff] at h
  obtain ⟨⟨x, rfl⟩, parts⟩ := h
  have inner := (wellFormedAll_iff [x]).mp parts x (mem_singleton_self x)
  cases x with
  | not inside =>
    rw [wellFormed, Bool.and_eq_true, beq_iff_eq, length_eq_one_iff] at inner
    obtain ⟨⟨c, rfl⟩, twice⟩ := inner
    exact .inr ⟨c, rfl, (wellFormedAll_iff [c]).mp twice c (mem_singleton_self c)⟩
  | isNull fields | notNull fields =>
    obtain ⟨f, rfl, plain⟩ := isTestedField_iff.mp inner
    exact .inr ⟨_, rfl, plain⟩
  | _ => exact .inl rfl

theorem hereditary_wellFormed : Hereditary fun c => c.wellFormed = true where
  absent := rfl
  operand h := ((wellFormed_build_iff _ _ _).mp h).2
  rebuild h parts := (wellFormed_build_iff _ _ _).mpr ⟨((wellFormed_build_iff _ _ _).mp h).1, parts⟩
  junction j _ parts := (wellFormed_build_iff j none _).mpr ⟨fun _ => rfl, parts⟩
  negations h step := by
    rcases reduceNot_of_wellFormed h with stuck | ⟨c, reduced, whole⟩
    · rw [stuck] at step
      cases step
    · rw [reduced] at step
      cases step
      exact whole

theorem wellFormed_operand (h : t.wellFormed = true) (member : x ∈ t.operands) :
    x.wellFormed = true := by
  cases t with
  | all o items => exact hereditary_wellFormed.operand (j := .conj) h x member
  | any items => exact hereditary_wellFormed.operand (j := .disj) (o := none) h x member
  | not items =>
    rw [wellFormed, Bool.and_eq_true] at h
    exact (wellFormedAll_iff items).mp h.2 x member
  | _ => cases member

theorem wellFormed_withOperands {xs : List Cond} (h : t.wellFormed = true)
    (size : xs.length = t.operands.length) (parts : ∀ x ∈ xs, x.wellFormed = true) :
    (t.withOperands xs).wellFormed = true := by
  cases t with
  | all o items => exact hereditary_wellFormed.rebuild (j := .conj) h parts
  | any items => exact hereditary_wellFormed.rebuild (j := .disj) (o := none) h parts
  | not items =>
    rw [withOperands, wellFormed, size]
    rw [wellFormed, Bool.and_eq_true] at h
    rw [operands, h.1, (wellFormedAll_iff xs).mpr parts]
    rfl
  | _ => exact h

theorem stepwise_wellFormed :
    Stepwise (fun t => t.wellFormed = true) (fun _ => True) fun _ c => c.wellFormed = true where
  reduced whole step := hereditary_wellFormed.reduce? step whole
  operand := wellFormed_operand
  step _ _ _ := id
  -- a negation keeps its one operand, since a pass takes each tree to one tree
  rebuild whole each := by
    refine wellFormed_withOperands whole each.length_eq.symm ?_
    exact forall_of_forall₂ (P := fun _ => True) (each.imp fun _ _ h _ => h) fun _ _ => trivial

mutual

/-- The brackets of a well-formed tree can be taken off, and it is well-formed without them. -/
theorem strip_of_wellFormed {t : Cond} (h : t.wellFormed = true) :
    ∃ bare, t.strip = .ok bare ∧ bare.wellFormed = true := by
  match t, h with
  | .group inner, h =>
    have same : (Cond.group inner).strip = inner.strip := by
      cases inner with
      | seq _ => cases h
      | value v =>
        cases v with
        | list _ => cases h
        | _ => rfl
      | _ => rfl
    rw [same]
    exact strip_of_wellFormed h
  | .all o items, h =>
    obtain ⟨own, parts⟩ := (wellFormed_build_iff .conj o items).mp h
    obtain ⟨ds, stripped, whole⟩ := stripAll_of_wellFormed parts
    refine ⟨.all o ds, by rw [strip, stripped]; rfl, ?_⟩
    exact (wellFormed_build_iff .conj o ds).mpr ⟨own, whole⟩
  | .any items, h =>
    obtain ⟨ds, stripped, whole⟩ := stripAll_of_wellFormed ((wellFormedAll_iff items).mp h)
    exact ⟨.any ds, by rw [strip, stripped]; rfl, (wellFormedAll_iff ds).mpr whole⟩
  | .isNull items, h | .notNull items, h =>
    obtain ⟨f, rfl, plain⟩ := isTestedField_iff.mp h
    cases f with
    | map _ => cases plain
    | _ => exact ⟨_, rfl, plain⟩
  | .value v, h =>
    cases v with
    | map _ => cases h
    | _ => exact ⟨_, rfl, h⟩
  | .absent, h | .not items, h | .item f v, h => exact ⟨_, rfl, h⟩

theorem stripAll_of_wellFormed {items : List Cond} (h : ∀ c ∈ items, c.wellFormed = true) :
    ∃ ds, stripAll items = .ok ds ∧ ∀ d ∈ ds, d.wellFormed = true := by
  match items, h with
  | [], _ => exact ⟨[], rfl, forall_mem_nil _⟩
  | c :: rest, h =>
    obtain ⟨here, others⟩ := forall_mem_cons.mp h
    obtain ⟨d, stripped, whole⟩ := strip_of_wellFormed here
    obtain ⟨ds, strippedRest, wholeRest⟩ := stripAll_of_wellFormed others
    refine ⟨d :: ds, ?_, forall_mem_cons.mpr ⟨whole, wholeRest⟩⟩
    rw [stripAll, stripped, strippedRest]
    rfl

end

/-! ## Copies -/

/-- How often a node stands in a list. -/
def occurrences (c : Cond) (items : List Cond) : Nat :=
  items.countP c.same

theorem same_congr_left {y : Cond} (same : c.same x = true) (leaf : x.comparable = true)
    (plain : y.Plain) : c.same y = x.same y := by
  have form := (same_iff leaf).mp same
  rw [Bool.eq_iff_iff]
  constructor
  · intro h
    have other := plain.comparable h
    rw [same_iff other] at h ⊢
    rw [← form, h]
  · intro h
    have other := plain.comparable h
    rw [same_iff other] at h ⊢
    rw [form, h]

theorem occurrences_congr (same : c.same x = true) (leaf : x.comparable = true)
    (plain : ∀ y ∈ items, y.Plain) : occurrences c items = occurrences x items := by
  refine countP_congr fun y member => ?_
  rw [same_congr_left same leaf (plain y member)]

theorem eraseSame?_eq_none_iff : eraseSame? c items = none ↔ occurrences c items = 0 := by
  induction items with
  | nil => simp [eraseSame?, occurrences]
  | cons x xs ih =>
    rw [eraseSame?, occurrences, countP_cons, ← occurrences]
    split <;> simp_all

theorem occurrences_eraseSame? {rest : List Cond} (erased : eraseSame? c items = some rest)
    (plain : ∀ x ∈ items, x.Plain) (d : Cond) :
    occurrences d items = occurrences d [c] + occurrences d rest := by
  obtain ⟨before, x, after, same, rfl, rfl⟩ := eraseSame?_eq_some erased
  have here := (plain x (mem_append_right before mem_cons_self)).comparable same
  simp only [occurrences, countP_append, countP_cons, countP_nil, same_congr same here d]
  omega

theorem occurrences_cons (d c : Cond) (items : List Cond) :
    occurrences d (c :: items) = occurrences d [c] + occurrences d items := by
  rw [occurrences, ← singleton_append, countP_append]
  rfl

/-- Nodes can be taken out of a list exactly if none of them stands there less often. -/
theorem eraseEach_eq_ok_iff (leaves : ∀ c ∈ cs, c.comparable = true) (plain : ∀ x ∈ items, x.Plain) :
    (∃ rest, eraseEach cs items = .ok rest) ↔ ∀ d, occurrences d cs ≤ occurrences d items := by
  induction cs generalizing items with
  | nil => exact ⟨fun _ d => Nat.zero_le _, fun _ => ⟨items, rfl⟩⟩
  | cons c cs ih =>
    obtain ⟨leaf, others⟩ := forall_mem_cons.mp leaves
    rw [eraseEach]
    cases erased : eraseSame? c items with
    | none =>
      constructor
      · rintro ⟨rest, failed⟩
        cases failed
      · intro enough
        -- the node itself is the one that stands there less often
        have nowhere := eraseSame?_eq_none_iff.mp erased
        have own : occurrences c [c] = 1 := by
          rw [occurrences, countP_singleton, if_pos ((same_iff leaf).mpr rfl)]
        have copies := enough c
        rw [occurrences_cons, own, nowhere] at copies
        omega
    | some rest =>
      have left : ∀ x ∈ rest, x.Plain := fun x member => plain x (mem_of_eraseSame? erased member)
      show (∃ left, eraseEach cs rest = .ok left) ↔ _
      rw [ih others left]
      refine forall_congr' fun d => ?_
      rw [occurrences_cons, occurrences_eraseSame? erased plain d]
      omega

theorem eraseFromBranches_eq_ok_iff {shared : List Cond} {branches : List (Option Nat × List Cond)}
    (leaves : ∀ c ∈ shared, c.comparable = true) (plain : ∀ b ∈ branches, ∀ x ∈ b.2, x.Plain) :
    (∃ left, eraseFromBranches shared branches = .ok left) ↔
      ∀ b ∈ branches, ∀ d, occurrences d shared ≤ occurrences d b.2 := by
  induction branches with
  | nil => exact ⟨fun _ => forall_mem_nil _, fun _ => ⟨[], rfl⟩⟩
  | cons b rest ih =>
    obtain ⟨o, items⟩ := b
    obtain ⟨here, others⟩ := forall_mem_cons.mp plain
    rw [forall_mem_cons, ← ih others, ← eraseEach_eq_ok_iff leaves here, eraseFromBranches]
    cases eraseEach shared items with
    | error e => simp
    | ok left => cases eraseFromBranches shared rest <;> simp

/-! ## Junctions that fall short -/

/-- The junction is tidy and its operands are opposite junctions that share the node, but one of them has
it less often than the first. -/
structure FallsShort (j : Junction) (items : List Cond) (c : Cond) : Prop where
  tidy : Tidy j items
  shares : Shares j items c
  fewer : ∃ first ∈ items.head?, ∃ d ∈ items, occurrences c d.operands < occurrences c first.operands

/-- The node is a junction that lacks copies of an operand that is to be taken out. -/
def LacksCopies : Cond → Cond → Prop
  | .all _ items, c => FallsShort .conj items c
  | .any items, c => FallsShort .disj items c
  | _, _ => False

section Branches

variable {j : Junction} {o o₁ : Option Nat} {items first : List Cond} {c : Cond}
  {rest : List (Option Nat × List Cond)}

theorem eraseFromBranches_nil (branches : List (Option Nat × List Cond)) :
    eraseFromBranches [] branches = .ok branches := by
  induction branches with
  | nil => rfl
  | cons b rest ih => rw [eraseFromBranches, eraseEach, ih]

theorem tokenless_of_wellFormed (parts : ∀ d ∈ items, d.wellFormed = true) :
    ∀ d ∈ items, ∀ x ∈ d.operands, x.isToken = false := by
  intro d member x inside
  exact isToken_of_hashable (hashable_of_wellFormed (wellFormed_operand (parts d member) inside))

theorem rest_ne_nil (several : 2 ≤ (((o₁, first) :: rest).map (branch j)).length) : rest ≠ [] := by
  rintro rfl
  simp at several

theorem plain_branches {bs : List (Option Nat × List Cond)}
    (parts : ∀ d ∈ bs.map (branch j), d.wellFormed = true) : ∀ b ∈ bs, ∀ x ∈ b.2, x.Plain := by
  intro b member x inside
  refine plain_of_wellFormed (wellFormed_operand (parts _ (mem_map_of_mem member)) ?_)
  rwa [operands_branch]

theorem factored_eq_error_iff_erase {e : Fault} (found : branches? j items = some ((o₁, first) :: rest))
    (tokenless : ∀ d ∈ items, ∀ x ∈ d.operands, x.isToken = false) :
    factored j o items = .error e ↔
      eraseFromBranches (first.filter fun c => rest.all fun b => c.memberOf b.2) rest = .error e := by
  rw [branches?_map_branch found] at tokenless
  simp only [factored, found, any_isToken_branches tokenless, Bool.false_eq_true, if_false]
  split
  · rename_i nothing
    rw [List.isEmpty_iff.mp nothing, eraseFromBranches_nil]
    simp
  · split
    · rename_i failed
      simp [failed]
    · rename_i others erased
      rw [erased]
      split <;> simp

theorem comparable_of_shares (several : rest ≠ []) (plain : ∀ b ∈ rest, ∀ x ∈ b.2, x.Plain)
    (shared : ∀ b ∈ rest, c.memberOf b.2 = true) : c.comparable = true := by
  obtain ⟨b, member⟩ := exists_mem_of_ne_nil rest several
  obtain ⟨y, inside, same⟩ := any_eq_true.mp (shared b member)
  exact comparable_of_same same ((plain b member y inside).comparable same)

theorem occurrences_shared (firstPlain : ∀ x ∈ first, x.Plain)
    (plain : ∀ b ∈ rest, ∀ x ∈ b.2, x.Plain) (shared : ∀ b ∈ rest, c.memberOf b.2 = true) :
    occurrences c (first.filter fun c => rest.all fun b => c.memberOf b.2) = occurrences c first := by
  rw [occurrences, countP_filter]
  refine countP_congr fun x member => ?_
  rw [Bool.and_eq_true, and_iff_left_iff_imp, all_eq_true]
  intro same b inRest
  obtain ⟨y, inside, there⟩ := any_eq_true.mp (shared b inRest)
  refine any_eq_true.mpr ⟨y, inside, ?_⟩
  rw [← same_congr_left same ((firstPlain x member).comparable same) (plain b inRest y inside)]
  exact there

/-- A branch has something less often than it is taken out exactly if it has a shared operand less often
than the first branch. -/
theorem exists_short_iff (several : rest ≠ []) (firstPlain : ∀ x ∈ first, x.Plain)
    (plain : ∀ b ∈ rest, ∀ x ∈ b.2, x.Plain) :
    (∃ b ∈ rest, ∃ d, occurrences d b.2 <
        occurrences d (first.filter fun c => rest.all fun b => c.memberOf b.2)) ↔
      ∃ c ∈ first, (∀ b ∈ rest, c.memberOf b.2 = true) ∧
        ∃ b ∈ rest, occurrences c b.2 < occurrences c first := by
  constructor
  · rintro ⟨b, member, d, fewer⟩
    -- what is taken out at all is the same as a shared operand, and it stands everywhere as often
    obtain ⟨c, inShared, same⟩ := countP_pos_iff.mp (Nat.zero_lt_of_lt fewer)
    obtain ⟨own, isShared⟩ := mem_filter.mp inShared
    rw [all_eq_true] at isShared
    have leaf := comparable_of_shares several plain isShared
    have sharedPlain : ∀ x ∈ first.filter fun c => rest.all fun b => c.memberOf b.2, x.Plain :=
      fun x inside => firstPlain x (mem_filter.mp inside).1
    rw [occurrences_congr same leaf (plain b member), occurrences_congr same leaf sharedPlain,
      occurrences_shared firstPlain plain isShared] at fewer
    exact ⟨c, own, isShared, b, member, fewer⟩
  · rintro ⟨c, own, isShared, b, member, fewer⟩
    refine ⟨b, member, c, ?_⟩
    rwa [occurrences_shared firstPlain plain isShared]

theorem fallsShort_branches_iff :
    FallsShort j (((o₁, first) :: rest).map (branch j)) c ↔
      Tidy j (((o₁, first) :: rest).map (branch j)) ∧ c ∈ first ∧
        (∀ b ∈ rest, c.memberOf b.2 = true) ∧ ∃ b ∈ rest, occurrences c b.2 < occurrences c first := by
  constructor
  · rintro ⟨tidy, shares, head, known, d, member, fewer⟩
    obtain ⟨own, others⟩ := shares_branches_iff.mp shares
    obtain rfl : branch j (o₁, first) = head := Option.some.inj known
    obtain ⟨b, inBranches, rfl⟩ := mem_map.mp member
    rw [operands_branch, operands_branch] at fewer
    rcases mem_cons.mp inBranches with rfl | inRest
    · exact absurd fewer (Nat.lt_irrefl _)
    · exact ⟨tidy, own, others, b, inRest, fewer⟩
  · rintro ⟨tidy, own, others, b, member, fewer⟩
    refine ⟨tidy, shares_branches_iff.mpr ⟨own, others⟩, branch j (o₁, first), rfl, branch j b,
      mem_map_of_mem (mem_cons_of_mem _ member), ?_⟩
    rwa [operands_branch, operands_branch]

end Branches

/-! ## Rules that fail -/

section Failure

variable {j : Junction} {items : List Cond} {e : Fault}

theorem factored_eq_error_iff (o : Option Nat) (tidy : Tidy j items)
    (parts : ∀ d ∈ items, d.wellFormed = true) :
    factored j o items = .error e ↔ e = .noValue ∧ ∃ c, FallsShort j items c := by
  rcases found : branches? j items with _ | _ | ⟨⟨o₁, first⟩, rest⟩
  · -- the operands are no branches, so there is nothing to take out
    constructor
    · intro failed
      simp [factored, found] at failed
    · rintro ⟨-, c, short⟩
      obtain ⟨_, _, _, branches, -⟩ := short.shares.exists_branches
      rw [found] at branches
      cases branches
  · have several := tidy.several
    rw [branches?_map_branch found] at several
    cases several
  · rw [factored_eq_error_iff_erase found (tokenless_of_wellFormed parts)]
    have whole := branches?_map_branch found
    rw [whole] at parts
    obtain ⟨firstPlain, restPlain⟩ := forall_mem_cons.mp (plain_branches parts)
    have several : rest ≠ [] := rest_ne_nil (whole ▸ tidy.several)
    have leaves : ∀ c ∈ first.filter fun c => rest.all fun b => c.memberOf b.2,
        c.comparable = true := by
      intro c member
      have isShared := all_eq_true.mp (mem_filter.mp member).2
      exact comparable_of_shares several restPlain isShared
    have succeeds := eraseFromBranches_eq_ok_iff leaves restPlain
    have short := exists_short_iff several firstPlain restPlain
    have shortItems : (∃ c, FallsShort j items c) ↔ ∃ c ∈ first,
        (∀ b ∈ rest, c.memberOf b.2 = true) ∧ ∃ b ∈ rest, occurrences c b.2 < occurrences c first := by
      rw [whole] at tidy ⊢
      simp only [fallsShort_branches_iff, tidy, true_and]
    rw [shortItems, ← short]
    constructor
    · intro failed
      refine ⟨eraseFromBranches_eq_error failed, ?_⟩
      by_contra enough
      have bounded : ∀ b ∈ rest, ∀ d,
          occurrences d (first.filter fun c => rest.all fun b => c.memberOf b.2) ≤
            occurrences d b.2 := by
        intro b member d
        by_contra fewer
        exact enough ⟨b, member, d, Nat.lt_of_not_le fewer⟩
      obtain ⟨left, erased⟩ := succeeds.mpr bounded
      rw [failed] at erased
      cases erased
    · rintro ⟨rfl, b, member, d, fewer⟩
      cases erased : eraseFromBranches (first.filter fun c => rest.all fun b => c.memberOf b.2) rest with
      | ok left => exact absurd (succeeds.mp ⟨left, erased⟩ b member d) (Nat.not_le_of_lt fewer)
      | error e => rw [eraseFromBranches_eq_error erased]

theorem reduceJunction_eq_error_iff (o : Option Nat) (parts : ∀ d ∈ items, d.wellFormed = true) :
    reduceJunction j o items = .error e ↔ e = .noValue ∧ ∃ c, FallsShort j items c := by
  have trees : ∀ c ∈ items, c.unshared = true :=
    fun c member => (plain_of_wellFormed (parts c member)).tree
  have hashable : ∀ c ∈ items, c.hashable = true :=
    fun c member => hashable_of_wellFormed (parts c member)
  cases plain : isPlainJunction j items with
  | true =>
    rw [reduceJunction_of_plain o plain]
    exact factored_eq_error_iff o ((isPlainJunction_iff trees).mp plain).2 parts
  | false =>
    -- an earlier rule applies, and these do not fail on operands that can stand in a set
    have rough : ¬ ∃ c, FallsShort j items c := by
      rintro ⟨c, short⟩
      rw [(isPlainJunction_iff trees).mpr ⟨hashable, short.tidy⟩] at plain
      cases plain
    rcases reduceJunction_of_not_plain o plain with ⟨c, reduced⟩ | ⟨-, c, member, unhashable⟩
    · simp [reduced, rough]
    · rw [hashable c member] at unhashable
      cases unhashable

end Failure

/-- A rule fails on a well-formed node exactly if the node lacks copies of an operand that is to be taken
out. -/
theorem reduce?_eq_error_iff {n : Cond} {e : Fault} (h : n.wellFormed = true) :
    reduce? n = .error e ↔ e = .noValue ∧ ∃ c, n.LacksCopies c := by
  have parts : ∀ x ∈ n.operands, x.wellFormed = true := fun x member => wellFormed_operand h member
  cases n with
  | all o items => exact reduceJunction_eq_error_iff o parts
  | any items => exact reduceJunction_eq_error_iff none parts
  | not items =>
    rcases reduceNot_of_wellFormed h with stuck | ⟨c, step, -⟩
    · simp [reduce?, stuck, LacksCopies]
    · simp [reduce?, step, LacksCopies]
  | _ => simp [reduce?, LacksCopies]

end Cond

end SigmaQuery
