import SigmaQuery.Proofs.MissingOperand

/-!
# Runs that fail

The simplification of a tree that is built from a search fails exactly if its run meets a junction that
lacks copies of an operand to be taken out. Whether it does is decided by the run: a branch may get its
second copy only by the passes before. But something can be said from the start. No step makes an atom
stand more often, so a leaf that is missing stood in the tree three times. And where no atom stands twice
and no junction is empty, nothing is shared and nothing can be missing.
-/

namespace SigmaQuery

open List

namespace Cond

/-! ## Nodes that a run meets -/

/-- A pass over the tree comes to the node: it tries the rules there. -/
inductive Calls : Cond → Cond → Prop
  | here (t : Cond) : Calls t t
  | restart {t d n : Cond} (step : reduce? t = .ok (some d)) (later : Calls d n) : Calls t n
  | descend {t c n : Cond} {before after xs : List Cond} {steps : List Step}
      (stuck : reduce? t = .ok none) (operands : t.operands = before ++ c :: after)
      (sooner : Passes before steps xs) (later : Calls c n) : Calls t n

/-- The run of passes from the tree comes to the node. -/
inductive Meets : Cond → Cond → Prop
  | now {t n : Cond} (called : Calls t n) : Meets t n
  | later {t d n : Cond} {steps : List Step} (some_step : steps ≠ []) (first : Passes [t] steps [d])
      (met : Meets d n) : Meets t n

variable {e : Fault} {ls : List Loss} {xs ts items : List Cond} {c t n bare : Cond} {a : Atom}
  {j : Junction} {o : Option Nat}

theorem eq_error_of_map {α β : Type} {f : α → β} {r : Except Fault α × List Loss}
    (h : (r.1.map f, r.2) = (.error e, ls)) : r = (.error e, ls) := by
  obtain ⟨e' | a, gone⟩ := r
  · cases h
    rfl
  · cases h

theorem map_after_nil (items : List Cond) : items.map (Cond.after []) = items := by
  simp [funext after_nil]

theorem passAll_of_fail {before after : List Cond} {changed : Bool}
    (trees : ∀ t ∈ before, t.unshared = true) (passed : passAll [] before = (.ok (xs, changed), []))
    (failed : pass [] c = (.error e, [])) : passAll [] (before ++ c :: after) = (.error e, []) := by
  induction before generalizing xs changed with
  | nil => exact passAll_of_error failed
  | cons t before ih =>
    obtain ⟨here, others⟩ := forall_mem_cons.mp trees
    obtain ⟨d, first, ds, more, passedFirst, passedRest, -, -⟩ := (passAll_cons_iff here).mp passed
    rw [cons_append, passAll_of_ok passedFirst, map_after_nil, ih others passedRest]
    rfl

theorem Calls.pass_eq (called : t.Calls n) (tree : t.unshared = true)
    (failed : reduce? n = .error e) : pass [] t = (.error e, []) := by
  induction called with
  | here t => rw [pass_of_error failed, losses_eq_nil tree, append_nil]
  | restart step later ih =>
    have next := ih (hereditary_unshared.reduce? step tree) failed
    rw [pass_of_step step, losses_eq_nil tree, append_nil, after_nil, next]
    rfl
  | @descend t c n before after xs steps stuck operands sooner later ih =>
    have parts : ∀ x ∈ before ++ c :: after, x.unshared = true := by
      rw [← operands]
      exact fun x member => unshared_of_mem_operands tree member
    have here := ih (parts c (by simp)) failed
    have trees : ∀ x ∈ before, x.unshared = true :=
      fun x member => parts x (mem_append_left _ member)
    rw [pass_of_descent stuck, operands, passAll_of_fail trees (sooner.passAll_eq trees) here]
    rfl

theorem exists_failed_of_passAll (trees : ∀ t ∈ ts, t.unshared = true)
    (h : passAll [] ts = (.error e, ls)) :
    ∃ before c after steps xs, ts = before ++ c :: after ∧ Passes before steps xs ∧
      pass [] c = (.error e, ls) := by
  induction ts with
  | nil =>
    rw [passAll] at h
    cases h
  | cons t rest ih =>
    obtain ⟨here, others⟩ := forall_mem_cons.mp trees
    rcases first : pass [] t with ⟨e' | ⟨c, changed⟩, gone⟩
    · rw [passAll_of_error first] at h
      cases h
      exact ⟨[], t, rest, [], [], rfl, .nil, first⟩
    · obtain ⟨rfl, steps, passes, -⟩ := exists_passes_of_pass here first
      rw [passAll_of_ok first, map_after_nil] at h
      obtain ⟨before, x, after, more, xs, rfl, sooner, last⟩ := ih others (eq_error_of_map h)
      exact ⟨t :: before, x, after, steps ++ more, c :: xs, rfl, passes.append sooner, last⟩

theorem exists_calls_of_pass {t : Cond} {e : Fault} {ls : List Loss} (tree : t.unshared = true)
    (h : pass [] t = (.error e, ls)) : ∃ n, t.Calls n ∧ reduce? n = .error e := by
  rcases step : reduce? t with e' | _ | d
  · rw [pass_of_error step] at h
    cases h
    exact ⟨t, .here t, step⟩
  · rw [pass_of_descent step] at h
    have trees : ∀ x ∈ t.operands, x.unshared = true :=
      fun x member => unshared_of_mem_operands tree member
    obtain ⟨before, c, after, steps, xs, operands, sooner, failed⟩ :=
      exists_failed_of_passAll trees (eq_error_of_map h)
    have lighter : c.weight < t.weight := by
      have sum := weights_operands_lt t
      rw [operands, weights_append, weights] at sum
      omega
    obtain ⟨n, called, broken⟩ := exists_calls_of_pass (trees c (by simp [operands])) failed
    exact ⟨n, .descend step operands sooner called, broken⟩
  · rw [pass_of_step step, losses_eq_nil tree, append_nil, after_nil] at h
    have lighter := weight_reduce? step
    obtain ⟨n, called, broken⟩ :=
      exists_calls_of_pass (hereditary_unshared.reduce? step tree) (eq_error_of_map h)
    exact ⟨n, .restart step called, broken⟩
termination_by t.weight
decreasing_by all_goals omega

theorem Meets.settle_eq (met : t.Meets n) (tree : t.unshared = true) (failed : reduce? n = .error e) :
    settle [] t = (.error e, []) := by
  induction met with
  | now called => exact settle_of_error (called.pass_eq tree failed)
  | later some_step first _ ih =>
    have passed := first.pass_eq tree
    rw [isEmpty_eq_false_iff.mpr some_step, Bool.not_false] at passed
    rw [settle_of_changed passed]
    exact ih (first.unshared_single tree).2 failed

theorem exists_meets_of_settle {t : Cond} {e : Fault} {ls : List Loss} (tree : t.unshared = true)
    (h : settle [] t = (.error e, ls)) : ∃ n, t.Meets n ∧ reduce? n = .error e := by
  rcases passed : pass [] t with ⟨e' | ⟨c, _ | _⟩, gone⟩
  · rw [settle_of_error passed] at h
    cases h
    obtain ⟨n, called, broken⟩ := exists_calls_of_pass tree passed
    exact ⟨n, .now called, broken⟩
  · rw [settle_of_unchanged passed] at h
    cases h
  · rw [settle_of_changed passed] at h
    obtain ⟨rfl, steps, passes, changes⟩ := exists_passes_of_pass tree passed
    have lighter : c.weight + 1 ≤ t.weight := weight_pass [] t passed
    obtain ⟨n, met, broken⟩ := exists_meets_of_settle (passes.unshared_single tree).2 h
    exact ⟨n, .later (changes.mp rfl) passes met, broken⟩
termination_by t.weight
decreasing_by omega

/-- The simplification fails exactly where a node fails that its run meets. -/
theorem simplify_eq_error_iff (stripped : t.strip = .ok bare) (tree : bare.unshared = true) :
    t.simplify = .error e ↔ ∃ n, bare.Meets n ∧ reduce? n = .error e := by
  rw [simplify, simplified_of_ok stripped]
  constructor
  · intro h
    rcases settled : settle [] bare with ⟨e' | c, ls⟩
    · rw [settled] at h
      cases h
      exact exists_meets_of_settle tree settled
    · rw [settled] at h
      cases h
  · rintro ⟨n, met, failed⟩
    rw [met.settle_eq tree failed]
    rfl

/-! ## What a run meets -/

theorem countAll_operands_le (a : Atom) (t : Cond) : countAll a t.operands ≤ t.count a := by
  cases t with
  | all o items | any items | not items => exact Nat.le_refl _
  | _ => exact Nat.zero_le _

/-- A node that a pass comes to is well-formed, and no atom stands in it more often than in the tree. -/
theorem Calls.inherits (called : t.Calls n) (h : t.wellFormed = true) :
    n.wellFormed = true ∧ ∀ a, n.count a ≤ t.count a := by
  induction called with
  | here t => exact ⟨h, fun a => Nat.le_refl _⟩
  | restart step later ih =>
    obtain ⟨whole, fewer⟩ := ih (hereditary_wellFormed.reduce? step h)
    have kept := reduce?_keeps step (plain_of_wellFormed h)
    exact ⟨whole, fun a => Nat.le_trans (fewer a) (kept a).1⟩
  | @descend t c n before after xs steps stuck operands sooner later ih =>
    have member : c ∈ t.operands := by simp [operands]
    obtain ⟨whole, fewer⟩ := ih (wellFormed_operand h member)
    refine ⟨whole, fun a => ?_⟩
    calc n.count a ≤ c.count a := fewer a
      _ ≤ countAll a t.operands := count_le_countAll a member
      _ ≤ t.count a := countAll_operands_le a t

theorem Meets.inherits (met : t.Meets n) (h : t.wellFormed = true) :
    n.wellFormed = true ∧ ∀ a, n.count a ≤ t.count a := by
  induction met with
  | now called => exact called.inherits h
  | @later t d n steps some_step first _ ih =>
    obtain ⟨whole, fewer⟩ := ih (stepwise_wellFormed.pass first h fun _ _ => trivial)
    obtain ⟨kept, -⟩ := stepwise_keeps.pass first (plain_of_wellFormed h) fun _ _ => trivial
    exact ⟨whole, fun a => Nat.le_trans (fewer a) (kept a).1⟩

theorem occurrences_le_countAll (own : c.count a = 1) (plain : ∀ x ∈ items, x.Plain) :
    occurrences c items ≤ countAll a items := by
  induction items with
  | nil => exact Nat.le_refl _
  | cons x xs ih =>
    obtain ⟨here, others⟩ := forall_mem_cons.mp plain
    have later := ih others
    rw [countAll_cons, occurrences, countP_cons, ← occurrences]
    split
    · rename_i same
      rw [← count_eq_of_same a same (here.comparable same), own]
      omega
    · omega

theorem exists_atom_of_comparable (leaf : c.comparable = true) :
    c = .absent ∨ ∃ a, c.atoms = [a] ∧ c.count a = 1 := by
  have self : c.same c = true := (same_iff leaf).mpr rfl
  cases c with
  | absent => exact .inl rfl
  | item f v =>
    refine .inr ⟨.item f v, rfl, ?_⟩
    rw [count, atoms, countP_singleton]
    exact if_pos self
  | value v =>
    refine .inr ⟨.plain v, rfl, ?_⟩
    rw [count, atoms, countP_singleton]
    exact if_pos self
  | _ => cases leaf

/-- The copies of a leaf in the first branch and in another one bring its atom to the node. -/
theorem occurrences_add_le_count {o₁ : Option Nat} {first : List Cond}
    {rest : List (Option Nat × List Cond)} {b : Option Nat × List Cond}
    (parts : ∀ d ∈ ((o₁, first) :: rest).map (branch j), d.wellFormed = true) (member : b ∈ rest)
    (own : c.count a = 1) : occurrences c first + occurrences c b.2 ≤
      (j.build o (((o₁, first) :: rest).map (branch j))).count a := by
  obtain ⟨firstPlain, restPlain⟩ := forall_mem_cons.mp (plain_branches parts)
  have bound := count_le_countAll a (mem_map_of_mem (f := branch j) member)
  rw [branch, count_build] at bound
  rw [count_build, map_cons, countAll_cons, branch, count_build]
  exact Nat.add_le_add (occurrences_le_countAll own firstPlain)
    (Nat.le_trans (occurrences_le_countAll own (restPlain b member)) bound)

/-- An operand that is missing in a branch is no condition, or its atom stands in the node three times:
twice in the first branch and once in another. -/
theorem three_le_count_of_fallsShort (parts : ∀ d ∈ items, d.wellFormed = true)
    (short : FallsShort j items c) :
    c = .absent ∨ ∃ a, c.atoms = [a] ∧ 3 ≤ (j.build o items).count a := by
  obtain ⟨o₁, first, rest, -, rfl, -⟩ := short.shares.exists_branches
  obtain ⟨-, -, shared, b, member, fewer⟩ := fallsShort_branches_iff.mp short
  obtain ⟨-, restPlain⟩ := forall_mem_cons.mp (plain_branches parts)
  have leaf := comparable_of_shares (ne_nil_of_mem member) restPlain shared
  refine (exists_atom_of_comparable leaf).imp_right fun ⟨a, only, own⟩ => ⟨a, only, ?_⟩
  have some_copy : 0 < occurrences c b.2 :=
    countP_pos_iff.mpr (any_eq_true.mp (shared b member))
  have copies := occurrences_add_le_count (o := o) parts member own
  omega

theorem three_le_count_of_lacksCopies (h : n.wellFormed = true) (short : n.LacksCopies c) :
    c = .absent ∨ ∃ a, c.atoms = [a] ∧ 3 ≤ n.count a := by
  have parts : ∀ x ∈ n.operands, x.wellFormed = true := fun x member => wellFormed_operand h member
  cases n with
  | all o items => exact three_le_count_of_fallsShort (j := .conj) (o := o) parts short
  | any items => exact three_le_count_of_fallsShort (j := .disj) (o := none) parts short
  | _ => cases short

/-! ## Trees without repetitions -/

mutual

/-- Every junction in the tree has an operand, and every operand is a condition. -/
def filled : Cond → Bool
  | .absent => false
  | .all _ items => !items.isEmpty && filledAll items
  | .any items => !items.isEmpty && filledAll items
  | .not items => filledAll items
  | .group inner => filled inner
  | _ => true

/-- The same for several trees. -/
def filledAll : List Cond → Bool
  | [] => true
  | c :: rest => filled c && filledAll rest

end

theorem filledAll_iff (items : List Cond) :
    filledAll items = true ↔ ∀ c ∈ items, c.filled = true :=
  each_iff (filledAll · = true) rfl (fun _ _ => Bool.and_eq_true_iff) items

theorem filled_build_iff (j : Junction) (o : Option Nat) (items : List Cond) :
    (j.build o items).filled = true ↔ items ≠ [] ∧ ∀ c ∈ items, c.filled = true := by
  rw [← filledAll_iff]
  cases j <;> simp [Junction.build, filled]

theorem filled_operand {x : Cond} (h : t.filled = true) (member : x ∈ t.operands) :
    x.filled = true := by
  cases t with
  | all o items => exact ((filled_build_iff .conj o items).mp h).2 x member
  | any items => exact ((filled_build_iff .disj none items).mp h).2 x member
  | not items => exact (filledAll_iff items).mp h x member
  | _ => cases member

theorem filled_withOperands (h : t.filled = true) (size : xs.length = t.operands.length)
    (parts : ∀ x ∈ xs, x.filled = true) : (t.withOperands xs).filled = true := by
  have nonempty : t.operands ≠ [] → xs ≠ [] := by
    rintro some_operand rfl
    exact some_operand (length_eq_zero_iff.mp size.symm)
  cases t with
  | all o items =>
    have some_operand := ((filled_build_iff .conj o items).mp h).1
    exact (filled_build_iff .conj o xs).mpr ⟨nonempty some_operand, parts⟩
  | any items =>
    have some_operand := ((filled_build_iff .disj none items).mp h).1
    exact (filled_build_iff .disj none xs).mpr ⟨nonempty some_operand, parts⟩
  | not items => exact (filledAll_iff xs).mpr parts
  | _ => exact h

theorem nodewise_filled : Nodewise fun t bare => t.filled = true → bare.filled = true where
  group h := h
  junction j {o items ds} each h := by
    obtain ⟨some_operand, parts⟩ := (filled_build_iff j o items).mp h
    refine (filled_build_iff j o ds).mpr ⟨?_, forall_of_forall₂ each parts⟩
    rintro rfl
    cases each
    exact some_operand rfl
  isNull _ _ := rfl
  notNull _ _ := rfl
  same _ := id

theorem filled_tidied (step : Tidied j o items c) (h : (j.build o items).filled = true) :
    c.filled = true := by
  obtain ⟨some_operand, parts⟩ := (filled_build_iff j o items).mp h
  obtain ⟨x, xs, rfl⟩ := exists_cons_of_ne_nil some_operand
  obtain ⟨here, -⟩ := forall_mem_cons.mp parts
  have spliced : ∀ {y z : Cond}, y.filled = true → z ∈ splice j y → z.filled = true := by
    intro y z whole member
    rcases exists_of_mem_splice member with rfl | ⟨o', items', rfl, inside⟩
    · exact whole
    · exact ((filled_build_iff j o' items').mp whole).2 z inside
  cases step with
  | empty nothing => cases nothing
  | present =>
    refine (filled_build_iff j o _).mpr ⟨?_, fun y member => parts y (mem_filter.mp member).1⟩
    cases x with
    | absent => cases here
    | _ => exact cons_ne_nil _ _
  | single only =>
    obtain ⟨rfl, -⟩ := List.cons.inj only
    exact here
  | distinct =>
    exact (filled_build_iff j o _).mpr
      ⟨cons_ne_nil _ _, fun y member => parts y (mem_of_distinctFrom member)⟩
  | flattened flat =>
    rw [flattened?_eq_some flat]
    refine (filled_build_iff j o _).mpr ⟨?_, fun z member => ?_⟩
    · have some_part : splice j x ≠ [] := by
        unfold splice
        split
        · rename_i o' items' parts?
          rw [parts?_eq_some parts?] at here
          exact ((filled_build_iff j o' items').mp here).1
        · exact cons_ne_nil _ _
      rw [flatMap_cons]
      exact append_ne_nil_of_left_ne_nil some_part _
    · obtain ⟨y, inItems, inside⟩ := mem_flatMap.mp member
      exact spliced (parts y inItems) inside

/-- The tree is well-formed and filled, and no atom stands in it twice. -/
structure Unrepeated (t : Cond) : Prop where
  wellFormed : t.wellFormed = true
  filled : t.filled = true
  once : ∀ a, t.count a ≤ 1

namespace Unrepeated

variable {j : Junction} {o : Option Nat} {items : List Cond} {d t : Cond}

theorem not_shares (h : (j.build o items).Unrepeated) (several : 2 ≤ items.length) (c : Cond) :
    ¬ Shares j items c := by
  intro shares
  obtain ⟨o₁, first, rest, -, rfl, own, others⟩ := shares.exists_branches
  have parts := hereditary_wellFormed.operand h.wellFormed
  obtain ⟨-, restPlain⟩ := forall_mem_cons.mp (plain_branches parts)
  have some_other := rest_ne_nil several
  obtain ⟨b, member⟩ := exists_mem_of_ne_nil rest some_other
  have leaf := comparable_of_shares some_other restPlain others
  rcases exists_atom_of_comparable leaf with rfl | ⟨a, -, only⟩
  · -- the branches are filled, so they do not hold what is no condition
    have filledBranches := ((filled_build_iff j o _).mp h.filled).2
    have branchFilled := filledBranches (branch j (o₁, first)) mem_cons_self
    have absentFilled := filled_operand (x := .absent) branchFilled (by rwa [operands_branch])
    cases absentFilled
  · have self : c.same c = true := (same_iff leaf).mpr rfl
    have here : 0 < occurrences c first := countP_pos_iff.mpr ⟨c, own, self⟩
    have there : 0 < occurrences c b.2 :=
      countP_pos_iff.mpr (any_eq_true.mp (others b member))
    have copies := occurrences_add_le_count (o := o) parts member only
    have once := h.once a
    omega

theorem not_lacksCopies {n : Cond} (h : n.Unrepeated) (c : Cond) : ¬ n.LacksCopies c := by
  intro short
  cases n with
  | all o items => exact not_shares (j := .conj) h short.tidy.several c short.shares
  | any items => exact not_shares (j := .disj) (o := none) h short.tidy.several c short.shares
  | _ => cases short

theorem reduceJunction (h : (j.build o items).Unrepeated)
    (step : reduceJunction j o items = .ok (some d)) : d.filled = true := by
  have parts := hereditary_wellFormed.operand h.wellFormed
  have trees : ∀ x ∈ items, x.unshared = true :=
    fun x member => (plain_of_wellFormed (parts x member)).tree
  rcases reduceJunction_cases step with ⟨-, tidied⟩ | ⟨plain, -⟩
  · exact filled_tidied tidied h.filled
  · have several := ((isPlainJunction_iff trees).mp plain).2.several
    rw [reduceJunction_of_plain o plain, factored_of_not_shares (tokenless_of_wellFormed parts)
      (h.not_shares several)] at step
    cases step

theorem reduce? (h : t.Unrepeated) (step : reduce? t = .ok (some d)) : d.Unrepeated := by
  have kept := reduce?_keeps step (plain_of_wellFormed h.wellFormed)
  refine ⟨hereditary_wellFormed.reduce? step h.wellFormed, ?_,
    fun a => Nat.le_trans (kept a).1 (h.once a)⟩
  cases t with
  | all o items => exact reduceJunction (j := .conj) h step
  | any items => exact reduceJunction (j := .disj) (o := none) h step
  | not items =>
    have inner := (filledAll_iff items).mp h.filled
    rcases reduceNot_eq_some step with rfl | ⟨f, fs, rfl, rfl⟩ | ⟨f, fs, rfl, rfl⟩
    · exact filled_operand (inner _ (mem_singleton_self _)) (mem_singleton_self d)
    all_goals cases f <;> rfl
  | _ => cases step

theorem operand {x : Cond} (h : t.Unrepeated) (member : x ∈ t.operands) : x.Unrepeated := by
  refine ⟨wellFormed_operand h.wellFormed member, filled_operand h.filled member, fun a => ?_⟩
  calc x.count a ≤ countAll a t.operands := count_le_countAll a member
    _ ≤ t.count a := countAll_operands_le a t
    _ ≤ 1 := h.once a

end Unrepeated

theorem stepwise_filled : Stepwise Unrepeated (fun _ => True) fun _ c => c.filled = true where
  reduced once step := once.reduce? step
  operand once member := once.operand member
  step _ _ _ := id
  rebuild once each := by
    refine filled_withOperands once.filled each.length_eq.symm ?_
    exact forall_of_forall₂ (P := fun _ => True) (each.imp fun _ _ h _ => h) fun _ _ => trivial

theorem Calls.unrepeated (called : t.Calls n) (h : t.Unrepeated) : n.Unrepeated := by
  induction called with
  | here t => exact h
  | restart step later ih => exact ih (h.reduce? step)
  | descend stuck operands sooner later ih => exact ih (h.operand (by simp [operands]))

theorem Meets.unrepeated (met : t.Meets n) (h : t.Unrepeated) : n.Unrepeated := by
  induction met with
  | now called => exact called.unrepeated h
  | @later t d n steps some_step first _ ih =>
    have whole := stepwise_wellFormed.pass first h.wellFormed fun _ _ => trivial
    have filled := stepwise_filled.pass first h fun _ _ => trivial
    obtain ⟨kept, -⟩ :=
      stepwise_keeps.pass first (plain_of_wellFormed h.wellFormed) fun _ _ => trivial
    exact ih ⟨whole, filled, fun a => Nat.le_trans (kept a).1 (h.once a)⟩

/-! ## When a tree is simplified -/

/-- A well-formed tree fails exactly if its run meets a junction that lacks copies. -/
theorem simplify_eq_error_iff_lacksCopies (stripped : t.strip = .ok bare)
    (whole : bare.wellFormed = true) :
    t.simplify = .error e ↔ e = .noValue ∧ ∃ n, bare.Meets n ∧ ∃ c, n.LacksCopies c := by
  rw [simplify_eq_error_iff stripped (plain_of_wellFormed whole).tree]
  constructor
  · rintro ⟨n, met, failed⟩
    obtain ⟨rfl, short⟩ := (reduce?_eq_error_iff (met.inherits whole).1).mp failed
    exact ⟨rfl, n, met, short⟩
  · rintro ⟨rfl, n, met, short⟩
    exact ⟨n, met, (reduce?_eq_error_iff (met.inherits whole).1).mpr ⟨rfl, short⟩⟩

/-- A result is given exactly if no junction that the run meets lacks copies. -/
theorem exists_simplify_iff (stripped : t.strip = .ok bare) (whole : bare.wellFormed = true) :
    (∃ u, t.simplify = .ok u) ↔ ∀ n, bare.Meets n → ∀ c, ¬ n.LacksCopies c := by
  have fails {e : Fault} := simplify_eq_error_iff_lacksCopies (e := e) stripped whole
  constructor
  · rintro ⟨u, returned⟩ n met c short
    rw [fails.mpr ⟨rfl, n, met, c, short⟩] at returned
    cases returned
  · intro enough
    cases result : t.simplify with
    | ok u => exact ⟨u, rfl⟩
    | error e =>
      obtain ⟨-, n, met, c, short⟩ := fails.mp result
      exact absurd short (enough n met c)

/-- **A well-formed tree is simplified unless copies of an operand are missing**: its brackets can be
taken off, and it is simplified exactly if the run from there meets no junction that lacks copies of a
shared operand. Otherwise the fault is that a value is missing. An operand whose copies are missing is no
condition, or its atom stands in the tree three times or more. And a tree is simplified if no junction in
it is empty and no atom stands in it twice. -/
theorem simplify_of_wellFormed {t : Cond} (h : t.wellFormed = true) :
    ∃ bare, t.strip = .ok bare ∧
      ((∃ u, t.simplify = .ok u) ↔ ∀ n, bare.Meets n → ∀ c, ¬ n.LacksCopies c) ∧
      ((¬ ∃ u, t.simplify = .ok u) → t.simplify = .error .noValue) ∧
      (∀ n c, bare.Meets n → n.LacksCopies c →
        c = .absent ∨ ∃ a, c.atoms = [a] ∧ 3 ≤ t.atoms.countP a.same) ∧
      (t.filled = true → (∀ a, t.atoms.countP (Atom.same a) ≤ 1) → ∃ u, t.simplify = .ok u) := by
  obtain ⟨bare, stripped, whole⟩ := strip_of_wellFormed h
  have atoms : bare.atoms = t.atoms := (nodewise_atoms.strip stripped).1
  refine ⟨bare, stripped, exists_simplify_iff stripped whole, ?_, ?_, ?_⟩
  · intro none
    cases result : t.simplify with
    | ok u => exact absurd ⟨u, result⟩ none
    | error e => rw [((simplify_eq_error_iff_lacksCopies stripped whole).mp result).1]
  · intro n c met short
    obtain ⟨wholeNode, fewer⟩ := met.inherits whole
    refine (three_le_count_of_lacksCopies wholeNode short).imp_right fun ⟨a, only, three⟩ => ?_
    refine ⟨a, only, ?_⟩
    rw [← atoms]
    exact Nat.le_trans three (fewer a)
  · intro filled once
    rw [← atoms] at once
    have unrepeated : bare.Unrepeated := ⟨whole, nodewise_filled.strip stripped filled, once⟩
    refine (exists_simplify_iff stripped whole).mpr fun n met => ?_
    exact (met.unrepeated unrepeated).not_lacksCopies

/-- An operand stands in the first branch twice and in the other one once. -/
def repeatedOperand : Cond :=
  .any [.all none [.value "x", .value "x", .value "z"], .all none [.value "x", .value "y"]]

/-- Two operands, one of them negated. -/
def separateOperands : Cond :=
  .any [.value "x", .not [.group (.value "y")]]

/-- A tree that lacks copies of an operand, which stands in it three times, and one in which no atom
stands twice. -/
theorem simplify_of_wellFormed_operands :
    (repeatedOperand.wellFormed = true ∧ repeatedOperand.LacksCopies (.value "x") ∧
      (¬ ∃ u, repeatedOperand.simplify = .ok u) ∧ repeatedOperand.simplify = .error .noValue ∧
      3 ≤ repeatedOperand.atoms.countP (Atom.plain "x").same) ∧
    separateOperands.wellFormed = true ∧ separateOperands.filled = true ∧
      (∀ a, separateOperands.atoms.countP (Atom.same a) ≤ 1) ∧
      ∃ u, separateOperands.simplify = .ok u := by
  constructor
  · have short : repeatedOperand.LacksCopies (.value "x") := by
      show FallsShort .disj (List.map (branch .disj)
        [(none, [.value "x", .value "x", .value "z"]), (none, [.value "x", .value "y"])]) (.value "x")
      have plain : isPlainJunction .disj repeatedOperand.operands = true := rfl
      have tidy := ((isPlainJunction_iff (by decide)).mp plain).2
      exact fallsShort_branches_iff.mpr ⟨tidy, List.mem_cons_self, List.forall_mem_singleton.mpr rfl, _,
        List.mem_singleton_self _, by decide⟩
    obtain ⟨bare, stripped, returns, fault, missing, -⟩ :=
      simplify_of_wellFormed (t := repeatedOperand) rfl
    obtain rfl : repeatedOperand = bare := Except.ok.inj stripped
    have met : repeatedOperand.Meets repeatedOperand := .now (.here _)
    have fails : ¬ ∃ u, repeatedOperand.simplify = .ok u := fun result => returns.mp result _ met _ short
    refine ⟨rfl, short, fails, fault fails, ?_⟩
    rcases missing _ _ met short with absent | ⟨a, only, three⟩
    · cases absent
    · obtain rfl : Atom.plain "x" = a := List.singleton_inj.mp only
      exact three
  · have once : ∀ a, separateOperands.atoms.countP (Atom.same a) ≤ 1 := by
      intro a
      show List.countP a.same [.plain "x", .plain "y"] ≤ 1
      rw [List.countP_cons, List.countP_singleton]
      by_cases first : a.same (.plain "x") = true
      · have other : a.same (.plain "y") = false := by
          cases a with
          | plain v => cases v <;> simp_all [Atom.same, Value.same, Value.number?]
          | item _ _ | field _ => rfl
        rw [if_pos first, other]
        exact Nat.le_refl 1
      · rw [if_neg first]
        split <;> omega
    obtain ⟨-, -, -, -, -, returns⟩ := simplify_of_wellFormed (t := separateOperands) rfl
    exact ⟨rfl, rfl, once, returns rfl once⟩

/-- A well-formed tree is not always simplified. -/
theorem simplify_repeatedOperand :
    repeatedOperand.wellFormed = true ∧ repeatedOperand.simplify = .error .noValue := by
  constructor <;> decide +kernel

end Cond

end SigmaQuery
