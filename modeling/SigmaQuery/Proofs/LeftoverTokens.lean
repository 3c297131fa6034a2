import SigmaQuery.Proofs.Reduction

/-!
# Tokens in the simplification

A token that no operator took up stands in the tree as a leaf. The simplification cannot compare
such leaves: where a token is an operand of a junction it fails. Elsewhere it keeps the token.

The trees here are *regular*: no conjunction belongs to a log source, a negation has one operand,
and a leaf can stand in a set. Trees that are made of plain definitions are.
-/

namespace SigmaQuery

open List

namespace Cond

/-! ## Trees with tokens -/

mutual

/-- A token is left in the tree. -/
def hasToken : Cond → Bool
  | .token _ => true
  | .all _ items => anyHasToken items
  | .any items => anyHasToken items
  | .not items => anyHasToken items
  | .isNull items => anyHasToken items
  | .notNull items => anyHasToken items
  | .seq items => anyHasToken items
  | .group inner => hasToken inner
  | .absent => false
  | .item _ _ => false
  | .value _ => false

/-- A token is left in one of the trees. -/
def anyHasToken : List Cond → Bool
  | [] => false
  | c :: rest => hasToken c || anyHasToken rest

end

theorem anyHasToken_eq_any (items : List Cond) : anyHasToken items = items.any hasToken := by
  induction items with
  | nil => rfl
  | cons c rest ih => exact congrArg (c.hasToken || ·) ih

theorem anyHasToken_eq_false_iff (items : List Cond) :
    anyHasToken items = false ↔ ∀ c ∈ items, c.hasToken = false := by
  simp [anyHasToken_eq_any]

theorem hasToken_build (j : Junction) (o : Option Nat) (items : List Cond) :
    (j.build o items).hasToken = anyHasToken items := by
  cases j <;> rfl

theorem hasToken_build_eq_false_iff (j : Junction) (o : Option Nat) (items : List Cond) :
    (j.build o items).hasToken = false ↔ ∀ c ∈ items, c.hasToken = false := by
  rw [hasToken_build, anyHasToken_eq_false_iff]

variable {c x t : Cond} {items rest cs shared ts : List Cond} {j : Junction} {o : Option Nat}
  {branches : List (Option Nat × List Cond)} {f : Factoring} {e : Fault}

theorem hasToken_of_isToken (token : c.isToken = true) : c.hasToken = true := by
  cases c with
  | token t => rfl
  | _ => exact absurd token (by simp [isToken])

theorem anyHasToken_of_mem (member : c ∈ items) (token : c.hasToken = true) :
    anyHasToken items = true := by
  rw [anyHasToken_eq_any]
  exact any_eq_true.mpr ⟨c, member, token⟩

theorem hasToken_not_not (c : Cond) : (Cond.not [.not [c]]).hasToken = c.hasToken :=
  (Bool.or_false _).trans (Bool.or_false _)

theorem hereditary_tokenFree : Hereditary fun c => c.hasToken = false where
  absent := rfl
  operand h := (hasToken_build_eq_false_iff _ _ _).mp h
  rebuild _ parts := (hasToken_build_eq_false_iff _ _ _).mpr parts
  junction j _ parts := (hasToken_build_eq_false_iff j none _).mpr parts
  negations {items c} h step := by
    rcases reduceNot_eq_some step with rfl | ⟨f, fs, rfl, rfl⟩ | ⟨f, fs, rfl, rfl⟩
    · exact hasToken_not_not c ▸ h
    · cases f <;> simp_all [notNullTest, hasToken, anyHasToken]
    · cases f <;> simp_all [nullTest, hasToken, anyHasToken]

/-! ## Regular trees -/

mutual

/-- No conjunction belongs to a log source, a negation has one operand, and a leaf can stand in a
set, if it is no token. -/
def regular : Cond → Bool
  | .all o items => o.isNone && regularAll items
  | .any items => regularAll items
  | .not items => items.length == 1 && regularAll items
  | .group inner => regular inner
  | .item f v => hashable (.item f v)
  | .value v => v.hashable
  | .absent => true
  | .token _ => true
  | .isNull _ => false
  | .notNull _ => false
  | .seq _ => false

/-- The same for several trees. -/
def regularAll : List Cond → Bool
  | [] => true
  | c :: rest => regular c && regularAll rest

end

theorem regularAll_iff (items : List Cond) :
    regularAll items = true ↔ ∀ c ∈ items, c.regular = true :=
  each_iff (regularAll · = true) rfl (fun _ _ => Bool.and_eq_true_iff) items

theorem regular_build_none (j : Junction) (items : List Cond) :
    (j.build none items).regular = true ↔ ∀ c ∈ items, c.regular = true := by
  cases j <;> exact regularAll_iff items

theorem regular_not (c : Cond) : (Cond.not [c]).regular = c.regular :=
  Bool.and_true _

theorem eq_singleton_of_regular_not (tree : (Cond.not items).regular = true) :
    ∃ c, items = [c] ∧ c.regular = true := by
  obtain ⟨one, trees⟩ := Bool.and_eq_true_iff.mp tree
  obtain ⟨c, rfl⟩ := length_eq_one_iff.mp (beq_iff_eq.mp one)
  exact ⟨c, rfl, (regularAll_iff [c]).mp trees c (mem_singleton_self c)⟩

theorem hashable_of_regular (tree : c.regular = true) (notToken : c.isToken = false) :
    c.hashable = true := by
  cases c <;> simp_all [regular, hashable, isToken]

theorem reduceNot_of_regular (tree : (Cond.not items).regular = true) :
    (∃ c, items = [.not [c]]) ∨ reduceNot items = .ok none := by
  obtain ⟨c, rfl, operand⟩ := eq_singleton_of_regular_not tree
  cases c with
  | not inner =>
    obtain ⟨d, rfl, -⟩ := eq_singleton_of_regular_not operand
    exact .inl ⟨d, rfl⟩
  | isNull _ | notNull _ => cases operand
  | _ => exact .inr rfl

theorem hereditary_regular : Hereditary fun c => c.regular = true where
  absent := rfl
  operand {j o items} h := by
    rw [← regularAll_iff]
    cases j <;> simp_all [Junction.build, regular]
  rebuild {j o items items'} h parts := by
    rw [← regularAll_iff] at parts
    cases j <;> simp_all [Junction.build, regular]
  junction j {items} parts := (regular_build_none j items).mpr parts
  negations {items c} h step := by
    rcases reduceNot_of_regular h with ⟨d, rfl⟩ | stuck
    · cases step
      rwa [regular_not, regular_not] at h
    · rw [stuck] at step
      cases step

mutual

theorem unshared_of_regular {t : Cond} (tree : t.regular = true) : t.unshared = true := by
  match t, tree with
  | .all o items, tree =>
    rw [regular, Bool.and_eq_true] at tree
    rw [unshared, Bool.and_eq_true]
    exact ⟨tree.1, unsharedAll_of_regularAll tree.2⟩
  | .any items, tree =>
    rw [regular] at tree
    rw [unshared]
    exact unsharedAll_of_regularAll tree
  | .not items, tree =>
    rw [regular, Bool.and_eq_true] at tree
    rw [unshared]
    exact unsharedAll_of_regularAll tree.2
  | .group inner, tree => exact unshared_of_regular (t := inner) tree
  | .item _ _, _ | .value _, _ | .absent, _ | .token _, _ => rfl

theorem unsharedAll_of_regularAll {items : List Cond} (trees : regularAll items = true) :
    unsharedAll items = true := by
  match items, trees with
  | [], _ => rfl
  | c :: rest, trees =>
    rw [regularAll, Bool.and_eq_true] at trees
    rw [unsharedAll, Bool.and_eq_true]
    exact ⟨unshared_of_regular trees.1, unsharedAll_of_regularAll trees.2⟩

end

/-! ## No step takes a token away -/

theorem tokenFree_of_same (h : c.same x = true) (tree : x.regular = true) :
    c.hasToken = false ∧ x.hasToken = false := by
  cases x with
  | all o items => cases c <;> cases o <;> simp_all [same, regular]
  | _ => cases c <;> simp_all [same, hasToken]

theorem tokenFree_of_memberOf (h : c.memberOf items = true) (trees : ∀ x ∈ items, x.regular = true) :
    c.hasToken = false := by
  obtain ⟨x, member, same⟩ := any_eq_true.mp h
  exact (tokenFree_of_same same (trees x member)).1

theorem tokenFree_of_distinctFrom {seen : List Cond} (known : ∀ x ∈ seen, x.regular = true)
    (trees : ∀ x ∈ items, x.regular = true)
    (free : ∀ x ∈ distinctFrom seen items, x.hasToken = false) :
    ∀ x ∈ items, x.hasToken = false := by
  induction items generalizing seen with
  | nil => simp
  | cons c rest ih =>
    obtain ⟨here, others⟩ := forall_mem_cons.mp trees
    unfold distinctFrom at free
    split at free
    · rename_i repeated
      exact forall_mem_cons.mpr ⟨tokenFree_of_memberOf repeated known, ih known others free⟩
    · obtain ⟨first, later⟩ := forall_mem_cons.mp free
      have known' : ∀ x ∈ c :: seen, x.regular = true := forall_mem_cons.mpr ⟨here, known⟩
      exact forall_mem_cons.mpr ⟨first, ih known' others later⟩

theorem tokenFree_of_tidied (step : Tidied j o items c) (trees : ∀ x ∈ items, x.regular = true)
    (free : c.hasToken = false) : ∀ x ∈ items, x.hasToken = false := by
  cases step with
  | empty nothing => simp [nothing]
  | present =>
    rw [hasToken_build_eq_false_iff] at free
    intro x member
    cases x with
    | absent => rfl
    | _ => exact free _ (mem_filter.mpr ⟨member, rfl⟩)
  | single only => simp [only, free]
  | distinct =>
    rw [hasToken_build_eq_false_iff] at free
    exact tokenFree_of_distinctFrom (by simp) trees free
  | flattened flat =>
    rw [hasToken_build_eq_false_iff, flattened?_eq_some flat] at free
    intro x member
    have own : ∀ y ∈ splice j x, y.hasToken = false :=
      fun y spliced => free y (mem_flatMap.mpr ⟨x, member, spliced⟩)
    unfold splice at own
    split at own
    · rename_i o' items' parts
      rw [parts?_eq_some parts]
      exact (hasToken_build_eq_false_iff _ _ _).mpr own
    · exact own x (mem_singleton_self x)

theorem mem_or_same_of_eraseSame? (h : eraseSame? c items = some rest) (member : x ∈ items) :
    x ∈ rest ∨ c.same x = true := by
  obtain ⟨before, y, after, same, rfl, rfl⟩ := eraseSame?_eq_some h
  rw [mem_append, mem_cons] at member
  rcases member with sooner | rfl | later
  · exact .inl (mem_append_left after sooner)
  · exact .inr same
  · exact .inl (mem_append_right before later)

theorem tokenFree_of_eraseEach (h : eraseEach cs items = .ok rest)
    (trees : ∀ x ∈ items, x.regular = true) (free : ∀ x ∈ rest, x.hasToken = false) :
    ∀ x ∈ items, x.hasToken = false := by
  induction cs generalizing items with
  | nil =>
    obtain rfl := Except.ok.inj h
    exact free
  | cons c cs ih =>
    obtain ⟨left, erased, h⟩ := eraseEach_cons_eq_ok h
    have later := ih h fun x member => trees x (mem_of_eraseSame? erased member)
    intro x member
    rcases mem_or_same_of_eraseSame? erased member with kept | same
    · exact later x kept
    · exact (tokenFree_of_same same (trees x member)).2

theorem tokenFree_of_eraseFromBranches {left : List (Option Nat × List Cond)}
    (h : eraseFromBranches shared branches = .ok left)
    (trees : ∀ b ∈ branches, ∀ x ∈ b.2, x.regular = true)
    (free : ∀ b ∈ left, ∀ x ∈ b.2, x.hasToken = false) :
    ∀ b ∈ branches, ∀ x ∈ b.2, x.hasToken = false := by
  induction branches generalizing left with
  | nil => simp
  | cons b rest ih =>
    obtain ⟨o, items⟩ := b
    obtain ⟨here, others⟩ := forall_mem_cons.mp trees
    obtain ⟨own, branches', erased, erasedRest, rfl⟩ := eraseFromBranches_cons_eq_ok h
    obtain ⟨freeOwn, freeRest⟩ := forall_mem_cons.mp free
    exact forall_mem_cons.mpr
      ⟨tokenFree_of_eraseEach erased here freeOwn, ih erasedRest others freeRest⟩

theorem tokenFree_of_inner (free : (f.inner o).hasToken = false) :
    ∀ b ∈ f.branches, ∀ x ∈ b.2, x.hasToken = false := by
  rw [Factoring.inner, hasToken_build_eq_false_iff] at free
  intro b member
  exact (hasToken_build_eq_false_iff _ _ _).mp (free _ (mem_map_of_mem member))

theorem tokenFree_of_result (two : 2 ≤ items.length) (found : factoringOf j items = some f)
    (trees : ∀ x ∈ items, x.regular = true) (free : (f.result o).hasToken = false) :
    ∀ x ∈ items, x.hasToken = false := by
  obtain ⟨o₁, first, rest, others, rfl, erased, junction, shared, branches⟩ :=
    factoringOf_eq_some found
  have innerFree : (f.inner o).hasToken = false := by
    unfold Factoring.result at free
    split at free
    · exact free
    · rw [hasToken_build_eq_false_iff] at free
      exact free _ (mem_append_right _ (mem_singleton_self _))
  have left := tokenFree_of_inner innerFree
  rw [branches, forall_mem_cons] at left
  have parts : ∀ b ∈ (o₁, first) :: rest, ∀ x ∈ b.2, x.regular = true :=
    fun b member => hereditary_regular.operand (trees _ (mem_map_of_mem member))
  obtain ⟨-, partsRest⟩ := forall_mem_cons.mp parts
  -- There is a second branch, and an operand that the first one shares with it is no token.
  have firstFree : ∀ x ∈ first, x.hasToken = false := by
    intro x member
    cases isShared : rest.all fun b => memberOf x b.2 with
    | false => exact left.1 x (mem_filter.mpr ⟨member, by rw [isShared]; rfl⟩)
    | true =>
      match rest, two with
      | b :: rest, _ =>
        have inSecond := all_eq_true.mp isShared b mem_cons_self
        exact tokenFree_of_memberOf inSecond (partsRest b mem_cons_self)
  have restFree := tokenFree_of_eraseFromBranches erased partsRest left.2
  intro x member
  obtain ⟨b, inBranches, rfl⟩ := mem_map.mp member
  refine (hasToken_build_eq_false_iff _ _ _).mpr ?_
  rcases mem_cons.mp inBranches with rfl | later
  · exact firstFree
  · exact restFree b later

theorem tokenFree_of_reduceJunction (h : reduceJunction j o items = .ok (some c))
    (trees : ∀ x ∈ items, x.regular = true) (free : c.hasToken = false) :
    (j.build o items).hasToken = false := by
  refine (hasToken_build_eq_false_iff _ _ _).mpr ?_
  rcases reduceJunction_cases h with ⟨-, step⟩ | ⟨plain, f, found, rfl⟩
  · exact tokenFree_of_tidied step trees free
  · exact tokenFree_of_result (two_le_of_isPlainJunction plain) found trees free

theorem hasToken_reduce? (h : reduce? t = .ok (some c)) (tree : t.regular = true) :
    c.hasToken = t.hasToken := by
  have back : c.hasToken = false → t.hasToken = false := by
    intro free
    cases t with
    | all o items =>
      exact tokenFree_of_reduceJunction (j := .conj) h
        (hereditary_regular.operand (j := .conj) tree)
        free
    | any items =>
      have parts := hereditary_regular.operand (j := .disj) (o := none) tree
      exact tokenFree_of_reduceJunction (j := .disj) (o := none) h parts free
    | not items =>
      rcases reduceNot_of_regular tree with ⟨d, rfl⟩ | stuck
      · cases h
        exact (hasToken_not_not c).trans free
      · rw [reduce?, stuck] at h
        cases h
    | _ => exact absurd h (by simp [reduce?])
  cases kept : t.hasToken with
  | false => exact hereditary_tokenFree.reduce? h kept
  | true =>
    cases free : c.hasToken with
    | true => rfl
    | false =>
      rw [back free] at kept
      cases kept

/-! ## Faults -/

/-- The faults that the simplification of a tree may end in. -/
def SimplifyFault (t : Cond) (e : Fault) : Prop :=
  e = .noValue ∨ e = .unoffered .tokenComparison ∧ t.hasToken = true

theorem eraseEach_eq_error (h : eraseEach cs items = .error e) : e = .noValue := by
  induction cs generalizing items with
  | nil => cases h
  | cons c cs ih =>
    unfold eraseEach at h
    split at h
    · cases h
      rfl
    · exact ih h

theorem eraseFromBranches_eq_error (h : eraseFromBranches shared branches = .error e) :
    e = .noValue := by
  induction branches with
  | nil => cases h
  | cons b rest ih =>
    unfold eraseFromBranches at h
    split at h
    · rename_i erased
      cases h
      exact eraseEach_eq_error erased
    · split at h
      · rename_i erasedRest
        cases h
        exact ih erasedRest
      · cases h

theorem factored_eq_error (h : factored j o items = .error e) :
    (j.build o items).SimplifyFault e := by
  unfold factored at h
  split at h
  · cases h
  · cases h
  · rename_i o₁ first rest found
    split at h
    · rename_i someToken
      cases h
      obtain ⟨b, inBranches, someToken⟩ := any_eq_true.mp someToken
      obtain ⟨x, inItems, token⟩ := any_eq_true.mp someToken
      have branchToken : (branch j b).hasToken = true := by
        rw [branch, hasToken_build]
        exact anyHasToken_of_mem inItems (hasToken_of_isToken token)
      refine .inr ⟨rfl, ?_⟩
      rw [hasToken_build, branches?_map_branch found]
      exact anyHasToken_of_mem (mem_map_of_mem inBranches) branchToken
    · dsimp only at h
      split at h
      · cases h
      · split at h
        · rename_i erased
          cases h
          exact .inl (eraseFromBranches_eq_error erased)
        · split at h <;> cases h

theorem reduceJunction_eq_error (trees : ∀ x ∈ items, x.regular = true)
    (h : reduceJunction j o items = .error e) : (j.build o items).SimplifyFault e := by
  have step := reduceJunction_step j o items
  rw [h] at step
  cases step with
  | token known =>
    obtain ⟨x, member, token⟩ := any_eq_true.mp known
    refine .inr ⟨rfl, ?_⟩
    rw [hasToken_build]
    exact anyHasToken_of_mem member (hasToken_of_isToken token)
  | unhashable noToken known =>
    have hashable : items.all Cond.hashable = true := by
      refine all_eq_true.mpr fun x member => hashable_of_regular (trees x member) ?_
      exact Bool.eq_false_iff.mpr (any_eq_false.mp noToken x member)
    rw [hashable] at known
    cases known
  | plain plain found => exact factored_eq_error found

/-- A step fails because of a token, or because an operand to take out is not there. -/
theorem reduce?_eq_error (tree : t.regular = true) (h : reduce? t = .error e) :
    t.SimplifyFault e := by
  cases t with
  | all o items =>
    exact reduceJunction_eq_error (j := .conj) (hereditary_regular.operand (j := .conj) tree) h
  | any items =>
    have parts := hereditary_regular.operand (j := .disj) (o := none) tree
    exact reduceJunction_eq_error (j := .disj) (o := none) parts h
  | not items =>
    rcases reduceNot_of_regular tree with ⟨d, rfl⟩ | stuck
    · cases h
    · rw [reduce?, stuck] at h
      cases h
  | _ => cases h

theorem regular_of_mem_operands (tree : t.regular = true) (member : x ∈ t.operands) :
    x.regular = true := by
  cases t with
  | all o items => exact hereditary_regular.operand (j := .conj) tree x member
  | any items => exact hereditary_regular.operand (j := .disj) (o := none) tree x member
  | not items =>
    rw [regular, Bool.and_eq_true] at tree
    exact (regularAll_iff items).mp tree.2 x member
  | _ => cases member

theorem hasToken_of_operands (h : anyHasToken t.operands = true) : t.hasToken = true := by
  cases t with
  | all o items | any items | not items => exact h
  | _ => cases h

mutual

theorem pass_eq_error {t : Cond} {e : Fault} {ls : List Loss} (tree : t.regular = true)
    (h : pass [] t = (.error e, ls)) : ls = [] ∧ t.SimplifyFault e := by
  have unlost := losses_eq_nil (unshared_of_regular tree)
  unfold pass at h
  split at h
  · rename_i failed
    cases h
    exact ⟨unlost, reduce?_eq_error tree failed⟩
  · rename_i d step
    have lighter := weight_reduce? step
    rw [unlost, append_nil, after_nil] at h
    split at h
    · rename_i e' ls' deeper
      cases h
      obtain ⟨rfl, fault⟩ := pass_eq_error (hereditary_regular.reduce? step tree) deeper
      rw [SimplifyFault, hasToken_reduce? step tree] at fault
      exact ⟨rfl, fault⟩
    · cases h
  · have lighter := weights_operands_lt t
    split at h
    · rename_i e' ls' below
      cases h
      obtain ⟨rfl, fault⟩ :=
        passAll_eq_error (fun x member => regular_of_mem_operands tree member) below
      exact ⟨rfl, fault.imp_right fun ⟨cause, inside⟩ => ⟨cause, hasToken_of_operands inside⟩⟩
    · cases h
termination_by 2 * t.weight
decreasing_by all_goals omega

theorem passAll_eq_error {ts : List Cond} {e : Fault} {ls : List Loss}
    (trees : ∀ t ∈ ts, t.regular = true) (h : passAll [] ts = (.error e, ls)) :
    ls = [] ∧ (e = .noValue ∨ e = .unoffered .tokenComparison ∧ anyHasToken ts = true) := by
  match ts, trees, h with
  | [], _, h =>
    rw [passAll] at h
    cases h
  | t :: rest, trees, h =>
    have sum := weights_cons t rest
    have pos := weight_pos t
    obtain ⟨here, others⟩ := forall_mem_cons.mp trees
    unfold passAll at h
    split at h
    · rename_i e' ls' failed
      cases h
      obtain ⟨rfl, fault⟩ := pass_eq_error here failed
      exact ⟨rfl, fault.imp_right fun ⟨cause, here⟩ =>
        ⟨cause, anyHasToken_of_mem mem_cons_self here⟩⟩
    · rename_i c first sooner passed
      obtain ⟨rfl, -⟩ := exists_passes_of_pass (unshared_of_regular here) passed
      have unchanged : rest.map (after []) = rest := by simp [funext after_nil]
      rw [unchanged] at h
      split at h
      · rename_i e' ls' failed
        cases h
        obtain ⟨rfl, fault⟩ := passAll_eq_error others failed
        refine ⟨rfl, fault.imp_right fun ⟨cause, later⟩ => ⟨cause, ?_⟩⟩
        rw [anyHasToken, later, Bool.or_true]
      · cases h
termination_by 2 * weights ts + 1
decreasing_by all_goals omega

end

/-! ## Whole runs -/

/-- A regular tree with a token if there was one. -/
def Carries (t u : Cond) : Prop :=
  u.regular = true ∧ u.hasToken = t.hasToken

mutual

theorem strip_of_regular {t : Cond} (tree : t.regular = true) :
    ∃ bare, t.strip = .ok bare ∧ t.Carries bare := by
  match t, tree with
  | .group inner, tree =>
    obtain ⟨bare, stripped, carried⟩ := strip_of_regular (t := inner) tree
    refine ⟨bare, ?_, carried⟩
    rw [strip]
    · exact stripped
    · rintro items rfl
      cases tree
    · rintro items rfl
      cases tree
  | .all o items, tree =>
    rw [regular, Bool.and_eq_true] at tree
    obtain ⟨ds, stripped, trees, tokens⟩ := stripAll_of_regular tree.2
    refine ⟨.all o ds, by rw [strip, stripped]; rfl, ?_, tokens⟩
    rw [regular, tree.1, trees]
    rfl
  | .any items, tree =>
    rw [regular] at tree
    obtain ⟨ds, stripped, trees, tokens⟩ := stripAll_of_regular tree
    exact ⟨.any ds, by rw [strip, stripped]; rfl, trees, tokens⟩
  | .value v, tree =>
    refine ⟨.value v, ?_, tree, rfl⟩
    cases v <;> first | rfl | cases tree
  | .absent, tree | .not items, tree | .item f v, tree | .token t, tree => exact ⟨_, rfl, tree, rfl⟩

theorem stripAll_of_regular {items : List Cond} (trees : regularAll items = true) :
    ∃ ds, stripAll items = .ok ds ∧ regularAll ds = true ∧ anyHasToken ds = anyHasToken items := by
  match items, trees with
  | [], _ => exact ⟨[], rfl, rfl, rfl⟩
  | c :: rest, trees =>
    rw [regularAll, Bool.and_eq_true] at trees
    obtain ⟨d, stripped, here⟩ := strip_of_regular trees.1
    obtain ⟨ds, strippedRest, others, tokens⟩ := stripAll_of_regular trees.2
    refine ⟨d :: ds, by rw [stripAll, stripped, strippedRest]; rfl, ?_, ?_⟩
    · rw [regularAll, here.1, others]
      rfl
    · rw [anyHasToken, anyHasToken, here.2, tokens]

end

end Cond

end SigmaQuery
