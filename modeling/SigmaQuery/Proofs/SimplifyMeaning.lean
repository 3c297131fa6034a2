import SigmaQuery.Proofs.Equality
import SigmaQuery.Proofs.Meaning
import SigmaQuery.Proofs.Reduction

/-!
# Simplification and meaning

A reduction step keeps the meaning of a node under every valuation, with one exception. When what
all branches share is taken out and nothing is left of one branch, that branch is dropped as no
constraint. But it stood for the shared nodes alone: in `a and b, or a` it made the whole mean `a`,
and without it the whole means `a and b`. So the step changes the meaning exactly under those
valuations where the shared nodes leave the branches open and the other branches turn out the other
way (`reduce?_meaning_iff`).

Main statement: the simplification of a tree is a run of steps, each of which keeps the meaning
exactly if it forgets no branch, and if none does, the simplified tree means what the tree means
(`simplify_meaning`).
-/

namespace SigmaQuery

open List

namespace Cond

variable (v : Valuation)

/-! ## Rules that tidy up -/

variable {c t : Cond} {items rest cs shared ds : List Cond} {j : Junction} {o : Option Nat}
  {f : Factoring} {steps : List Step}

theorem meaning_eq_of_same {x : Cond} (same : c.same x = true) (tree : x.unshared = true) :
    c.meaning v = x.meaning v := by
  unfold Cond.same at same
  split at same
  · rfl
  · exact absurd tree (by simp [unshared])
  · rw [Bool.and_eq_true] at same
    rw [meaning, meaning, v.item_same same.1 same.2]
  · rw [meaning, meaning, v.plain_same same]
  · exact absurd same (by simp)

theorem exists_meaning_present (items : List Cond) (b : Bool) :
    (∃ c ∈ items.filter fun c => !c.isAbsent, c.meaning v = some b) ↔
      ∃ c ∈ items, c.meaning v = some b := by
  constructor
  · rintro ⟨c, member, value⟩
    exact ⟨c, (mem_filter.mp member).1, value⟩
  · rintro ⟨c, member, value⟩
    refine ⟨c, mem_filter.mpr ⟨member, ?_⟩, value⟩
    cases c with
    | absent => exact absurd value (by simp [meaning])
    | _ => rfl

/-- Leaving out repetitions leaves the values of the operands and of those seen before. -/
theorem exists_meaning_distinctFrom {seen : List Cond} (b : Bool)
    (trees : ∀ c ∈ items, c.unshared = true) (seenTrees : ∀ c ∈ seen, c.unshared = true) :
    ((∃ c ∈ seen, c.meaning v = some b) ∨ ∃ c ∈ distinctFrom seen items, c.meaning v = some b) ↔
      ((∃ c ∈ seen, c.meaning v = some b) ∨ ∃ c ∈ items, c.meaning v = some b) := by
  induction items generalizing seen with
  | nil => rfl
  | cons c rest ih =>
    obtain ⟨here, others⟩ := forall_mem_cons.mp trees
    unfold distinctFrom
    split
    · rename_i repeated
      obtain ⟨x, member, same⟩ := any_eq_true.mp repeated
      have equal := meaning_eq_of_same v same (seenTrees x member)
      rw [ih others seenTrees, exists_mem_cons_iff, equal]
      constructor
      · rintro (before | later)
        · exact .inl before
        · exact .inr (.inr later)
      · rintro (before | value | later)
        · exact .inl before
        · exact .inl ⟨x, member, value⟩
        · exact .inr later
    · have later := ih others (forall_mem_cons.mpr ⟨here, seenTrees⟩)
      simpa only [exists_mem_cons_iff, or_assoc, or_left_comm] using later

/-- A junction that an operand is, taken up, is joined to the operand's value. -/
theorem join_splice (j : Junction) (c : Cond) :
    j.join ((splice j c).map (meaning v)) = c.meaning v := by
  unfold splice
  split
  · rename_i o items parts
    rw [parts?_eq_some parts, meaning_build]
  · exact j.join_singleton _

theorem meaning_tidied (step : Tidied j o items c) (trees : ∀ x ∈ items, x.unshared = true) :
    c.meaning v = (j.build o items).meaning v := by
  cases step with
  | empty nothing =>
    rw [nothing, meaning_build]
    rfl
  | present => exact meaning_build_congr v j o o (exists_meaning_present v items)
  | single only => rw [only, meaning_build, map_singleton, Junction.join_singleton]
  | distinct =>
    refine meaning_build_congr v j o o fun b => ?_
    have values := exists_meaning_distinctFrom v b trees (forall_mem_nil _)
    simpa only [distinct, not_mem_nil, false_and, exists_false, false_or] using values
  | flattened flat =>
    rw [flattened?_eq_some flat, meaning_build, meaning_build]
    exact j.join_flatMap (meaning v) (splice j) (join_splice v j) items

/-! ## Taking out what branches share -/

/-- What is left of the branches, each with its value. -/
def Factoring.left (f : Factoring) : List (Option Bool) :=
  f.branches.map fun b => f.junction.dual.join (b.2.map (meaning v))

/-- Under the valuation the shared nodes leave the branches open, nothing is left of one branch, and
what is left of the others turns out the other way. -/
def Factoring.Forgets (f : Factoring) : Prop :=
  f.junction.dual.join (f.shared.map (meaning v)) = some f.junction.decisive ∧
    none ∈ f.left v ∧ f.junction.join (f.left v) = some !f.junction.decisive

instance (f : Factoring) : Decidable (f.Forgets v) :=
  inferInstanceAs (Decidable (_ ∧ _))

/-- The step that reduces the node forgets a branch that matters under the valuation. -/
def Forgets (n : Cond) : Prop :=
  ∃ f, n.factoring? = some f ∧ f.Forgets v

theorem meaning_branch (j : Junction) (b : Option Nat × List Cond) :
    (branch j b).meaning v = j.dual.join (b.2.map (meaning v)) :=
  meaning_build v j.dual b.1 b.2

theorem Factoring.meaning_inner (f : Factoring) (o : Option Nat) :
    (f.inner o).meaning v = f.junction.join (f.left v) := by
  rw [Factoring.inner, meaning_build, map_map, Factoring.left]
  congr 1
  apply map_congr_left
  intro b _
  exact meaning_branch v f.junction b

/-- The result of taking out what is shared: the shared nodes joined to what is left. -/
theorem Factoring.meaning_result (f : Factoring) (o : Option Nat) :
    (f.result o).meaning v = f.junction.dual.join
      [f.junction.dual.join (f.shared.map (meaning v)), f.junction.join (f.left v)] := by
  have shared : f.junction.dual.join (f.shared.map (meaning v)) =
      f.junction.dual.join (f.kept.map (meaning v)) := by
    have := meaning_build_congr v f.junction.dual none none (exists_meaning_present v f.shared)
    rw [meaning_build, meaning_build] at this
    exact this.symm
  rw [shared]
  unfold Factoring.result
  split
  · rename_i noneKept
    rw [List.isEmpty_iff] at noneKept
    rw [noneKept, meaning_inner]
    exact (f.junction.dual.join_none_left _).symm
  · rw [meaning_build, map_append, map_singleton, Junction.join_append,
      Junction.join_singleton, meaning_inner]

theorem exists_meaning_eraseSame? (b : Bool) (h : eraseSame? c items = some rest)
    (trees : ∀ x ∈ items, x.unshared = true) : (∃ x ∈ items, x.meaning v = some b) ↔
      c.meaning v = some b ∨ ∃ x ∈ rest, x.meaning v = some b := by
  obtain ⟨before, y, after, same, rfl, rfl⟩ := eraseSame?_eq_some h
  rw [meaning_eq_of_same v same (trees y (mem_append_right before mem_cons_self))]
  simp only [mem_append, mem_cons, or_and_right, exists_or, exists_eq_left, or_left_comm]

theorem exists_meaning_eraseEach (b : Bool) (h : eraseEach cs items = .ok rest)
    (trees : ∀ x ∈ items, x.unshared = true) :
    (∃ x ∈ items, x.meaning v = some b) ↔ ∃ x ∈ cs ++ rest, x.meaning v = some b := by
  induction cs generalizing items with
  | nil =>
    obtain rfl := Except.ok.inj h
    rfl
  | cons c cs ih =>
    obtain ⟨left, erased, h⟩ := eraseEach_cons_eq_ok h
    have leftTrees : ∀ x ∈ left, x.unshared = true :=
      fun x member => trees x (mem_of_eraseSame? erased member)
    rw [exists_meaning_eraseSame? v b erased trees, ih h leftTrees, cons_append,
      exists_mem_cons_iff]

theorem meaning_branch_split (j : Junction) {left : List Cond}
    (split : ∀ b, (∃ x ∈ items, x.meaning v = some b) ↔
      ∃ x ∈ shared ++ left, x.meaning v = some b) : (branch j (o, items)).meaning v =
      j.dual.join [j.dual.join (shared.map (meaning v)), j.dual.join (left.map (meaning v))] := by
  have := meaning_build_congr v j.dual o o split
  rw [← Junction.join_append, ← map_append, ← meaning_build v j.dual o]
  exact this

theorem meaning_eraseFromBranches {branches left : List (Option Nat × List Cond)}
    (h : eraseFromBranches shared branches = .ok left)
    (trees : ∀ b ∈ branches, ∀ x ∈ b.2, x.unshared = true) :
    branches.map (fun b => (branch j b).meaning v) = left.map fun b =>
      j.dual.join [j.dual.join (shared.map (meaning v)), j.dual.join (b.2.map (meaning v))] := by
  induction branches generalizing left with
  | nil =>
    obtain rfl := Except.ok.inj h
    rfl
  | cons b rest ih =>
    obtain ⟨o, items⟩ := b
    obtain ⟨here, others⟩ := forall_mem_cons.mp trees
    obtain ⟨own, more, erased, erasedRest, rfl⟩ := eraseFromBranches_cons_eq_ok h
    rw [map_cons, map_cons, ih erasedRest others,
      meaning_branch_split v j fun b => exists_meaning_eraseEach v b erased here]

theorem exists_meaning_filter_split (p : Cond → Bool) (items : List Cond) (b : Bool) :
    (∃ x ∈ items, x.meaning v = some b) ↔
      ∃ x ∈ items.filter p ++ items.filter fun c => !p c, x.meaning v = some b := by
  constructor
  · rintro ⟨x, member, value⟩
    refine ⟨x, ?_, value⟩
    rw [mem_append, mem_filter, mem_filter]
    cases p x with
    | true => exact .inl ⟨member, rfl⟩
    | false => exact .inr ⟨member, rfl⟩
  · rintro ⟨x, member, value⟩
    rw [mem_append, mem_filter, mem_filter] at member
    exact ⟨x, member.elim And.left And.left, value⟩

/-- A junction of branches that share nodes, with the shared nodes apart in each branch. -/
theorem meaning_build_of_factoring (found : factoringOf j items = some f)
    (trees : ∀ x ∈ items, x.unshared = true) :
    (j.build o items).meaning v = f.junction.join ((f.left v).map fun x =>
      f.junction.dual.join [f.junction.dual.join (f.shared.map (meaning v)), x]) := by
  obtain ⟨o₁, first, rest, others, rfl, erased, junction, shared, branches⟩ :=
    factoringOf_eq_some found
  have inside : ∀ b ∈ (o₁, first) :: rest, ∀ x ∈ b.2, x.unshared = true := by
    intro b member
    exact hereditary_unshared.operand (trees (branch j b) (mem_map_of_mem member))
  obtain ⟨_, restTrees⟩ := forall_mem_cons.mp inside
  rw [Factoring.left, branches, junction, meaning_build, map_map, map_map, map_cons, map_cons]
  congr 2
  · rw [shared]
    exact meaning_branch_split v j (exists_meaning_filter_split v _ first)
  · exact meaning_eraseFromBranches v erased restTrees

/-- A step that takes out what is shared keeps the meaning exactly if it forgets no branch. -/
theorem meaning_result_iff (found : factoringOf j items = some f)
    (trees : ∀ x ∈ items, x.unshared = true) :
    (f.result o).meaning v = (j.build o items).meaning v ↔ ¬ f.Forgets v := by
  have nonempty : f.left v ≠ [] := by
    obtain ⟨o₁, first, rest, others, -, -, -, -, branches⟩ := factoringOf_eq_some found
    rw [Factoring.left, branches]
    exact cons_ne_nil _ _
  rw [f.meaning_result, meaning_build_of_factoring v found trees]
  exact f.junction.dual_join_join_iff _ nonempty

/-! ## Negations -/

theorem meaning_notNullTest (f : Cond) (fs : List Cond) :
    (notNullTest f).meaning v = (Cond.not [.isNull (f :: fs)]).meaning v := by
  rw [meaning_not]
  cases f <;> simp [notNullTest, meaning, testedField, field?, Option.map_map, Function.comp_def]

theorem meaning_nullTest (f : Cond) (fs : List Cond) :
    (nullTest f).meaning v = (Cond.not [.notNull (f :: fs)]).meaning v := by
  rw [meaning_not]
  cases f <;> simp [nullTest, meaning, testedField, field?, Option.map_map, Function.comp_def]

theorem meaning_reduceNot (h : reduceNot items = .ok (some c)) :
    c.meaning v = (Cond.not items).meaning v := by
  rcases reduceNot_eq_some h with rfl | ⟨f, fs, rfl, rfl⟩ | ⟨f, fs, rfl, rfl⟩
  · rw [meaning_not, meaning_not, Option.map_map]
    simp [Function.comp_def]
  · exact meaning_notNullTest v f fs
  · exact meaning_nullTest v f fs

/-! ## Steps and runs -/

theorem meaning_reduceJunction_iff (h : reduceJunction j o items = .ok (some c))
    (trees : ∀ x ∈ items, x.unshared = true) :
    c.meaning v = (j.build o items).meaning v ↔ ¬ (j.build o items).Forgets v := by
  unfold Forgets
  rw [factoring?_build]
  rcases reduceJunction_cases h with ⟨notPlain, step⟩ | ⟨plain, f, found, rfl⟩
  · rw [notPlain]
    simp [meaning_tidied v step trees]
  · rw [plain, if_pos rfl, meaning_result_iff v found trees, found]
    simp

/-- A reduction step keeps the meaning of a node exactly if it forgets no branch. -/
theorem reduce?_meaning_iff {n : Cond} (h : reduce? n = .ok (some c)) (tree : n.unshared = true) :
    c.meaning v = n.meaning v ↔ ¬ n.Forgets v := by
  cases n with
  | all o items =>
    exact meaning_reduceJunction_iff v (j := .conj) h
      (hereditary_unshared.operand (j := .conj) tree)
  | any items =>
    exact meaning_reduceJunction_iff v (j := .disj) (o := none) h
      (hereditary_unshared.operand (j := .disj) (o := none) tree)
  | not items =>
    rw [meaning_reduceNot v h]
    simp [Forgets, factoring?]
  | _ => exact absurd h (by simp [reduce?])

theorem stepwise_meaning : Stepwise (fun _ => True) (fun s => s.2.meaning v = s.1.meaning v)
    fun t c => c.meaning v = t.meaning v where
  reduced _ _ := trivial
  operand _ _ := trivial
  step _ same _ later := later.trans same
  rebuild {t xs} _ each := by
    have same := map_eq_of_forall₂ each
    rw [← meanings_eq_map, ← meanings_eq_map] at same
    cases t with
    | all o items | any items | not items => rw [withOperands, meaning, meaning, same, operands]
    | _ => rfl

theorem Settles.meaning_eq (h : Settles t steps c)
    (keep : ∀ s ∈ steps, s.2.meaning v = s.1.meaning v) : c.meaning v = t.meaning v :=
  (stepwise_meaning v).settles (fun _ _ => trivial) (fun first later => later.trans first) h trivial keep

/-! ## Brackets -/

theorem testedField_of_forall₂ (h : Forall₂ (fun c d => d.field? = c.field?) items ds) :
    testedField ds = testedField items := by
  cases h with
  | nil => rfl
  | cons here _ => exact here

theorem nodewise_meaning :
    Nodewise fun t bare => bare.meaning v = t.meaning v ∧ bare.field? = t.field? where
  group h := h
  junction j {o items ds} h := by
    refine ⟨?_, by cases j <;> rfl⟩
    rw [meaning_build, meaning_build, map_eq_of_forall₂ (h.imp fun _ _ same => same.1)]
  isNull h := ⟨by rw [meaning, meaning, testedField_of_forall₂ (h.imp fun _ _ same => same.2)], rfl⟩
  notNull h := ⟨by rw [meaning, meaning, testedField_of_forall₂ (h.imp fun _ _ same => same.2)], rfl⟩
  same _ := ⟨rfl, rfl⟩

theorem bracketwise_meaning : Bracketwise fun c d => d.meaning v = c.meaning v where
  junction j {o items ds} each := by
    rw [meaning, meaning_build, meaning_build, map_eq_of_forall₂ each]
  same _ := rfl

/-- A simplification whose steps keep the meaning keeps the meaning of the tree. -/
theorem Simplifies.meaning_eq {u : Cond} (h : t.Simplifies steps u)
    (keep : ∀ s ∈ steps, s.2.meaning v = s.1.meaning v) : u.meaning v = t.meaning v := by
  obtain ⟨bare, c, stripped, settles, rfl⟩ := h
  rw [(bracketwise_meaning v).bracket, settles.meaning_eq v keep]
  exact ((nodewise_meaning v).strip stripped).1

/-- The simplification of a tree is a run of steps. Under every valuation, a step of it keeps the
meaning of the node that it reduces exactly if it forgets no branch, and if no step forgets one, the
simplified tree means what the tree means. -/
theorem simplify_meaning {t u : Cond} (tree : t.unshared = true) (h : t.simplify = .ok u) :
    (∃ steps, t.Simplifies steps u) ∧ ∀ steps, t.Simplifies steps u → ∀ v : Valuation,
      (∀ s ∈ steps, s.2.meaning v = s.1.meaning v ↔ ¬ s.1.Forgets v) ∧
        ((∀ s ∈ steps, ¬ s.1.Forgets v) → u.meaning v = t.meaning v) := by
  refine ⟨(simplify_eq_ok_iff tree).mp h, fun steps run v => ?_⟩
  have sound := run.forall_step tree
  have exact_steps : ∀ s ∈ steps, s.2.meaning v = s.1.meaning v ↔ ¬ s.1.Forgets v :=
    fun s member => reduce?_meaning_iff v (sound s member).2 (sound s member).1
  refine ⟨exact_steps, fun none_forgets => run.meaning_eq v fun s member => ?_⟩
  exact (exact_steps s member).mpr (none_forgets s member)

/-- Two branches that share an item and have one more each: no branch is forgotten. -/
theorem simplify_meaning_common_item :
    (Cond.any [.all none [.item "a" "1", .item "b" "2"],
      .all none [.item "a" "1", .item "c" "3"]]).unshared = true ∧
    (Cond.any [.all none [.item "a" "1", .item "b" "2"],
      .all none [.item "a" "1", .item "c" "3"]]).simplify =
        .ok (.group (.all none [.item "a" "1", .group (.any [.item "b" "2", .item "c" "3"])])) ∧
    ∀ v, (Cond.group (.all none [.item "a" "1",
      .group (.any [.item "b" "2", .item "c" "3"])])).meaning v =
        (Cond.any [.all none [.item "a" "1", .item "b" "2"],
          .all none [.item "a" "1", .item "c" "3"]]).meaning v := by
  have first : Passes [.any [.all none [.item "a" "1", .item "b" "2"],
        .all none [.item "a" "1", .item "c" "3"]]] _
      [.all none [.item "a" "1", .any [.item "b" "2", .item "c" "3"]]] :=
    .reduce rfl (.operands rfl (Passes.item _ _ (.operands rfl
      (.reduce rfl (Passes.item _ _ (.reduce rfl (Passes.item _ _ .nil)))) .nil)) .nil)
  have second : Passes [.all none [.item "a" "1", .any [.item "b" "2", .item "c" "3"]]] []
      [.all none [.item "a" "1", .any [.item "b" "2", .item "c" "3"]]] :=
    Passes.operands (t := .all none [.item "a" "1", .any [.item "b" "2", .item "c" "3"]]) rfl
      (Passes.item _ _ (Passes.operands (t := .any [.item "b" "2", .item "c" "3"]) rfl
        (Passes.item _ _ (Passes.item _ _ .nil)) .nil)) .nil
  have settles := Settles.again (List.cons_ne_nil _ _) first (.done second)
  have run : (Cond.any [.all none [.item "a" "1", .item "b" "2"],
        .all none [.item "a" "1", .item "c" "3"]]).Simplifies
      [(.any [.all none [.item "a" "1", .item "b" "2"], .all none [.item "a" "1", .item "c" "3"]],
        .all none [.item "a" "1", .any [.all none [.item "b" "2"], .all none [.item "c" "3"]]]),
       (.all none [.item "b" "2"], .item "b" "2"), (.all none [.item "c" "3"], .item "c" "3")]
      (.group (.all none [.item "a" "1", .group (.any [.item "b" "2", .item "c" "3"])])) :=
    ⟨_, _, rfl, settles, rfl⟩
  have h := (simplify_eq_ok_iff rfl).mpr ⟨_, run⟩
  refine ⟨rfl, h, fun v => ((simplify_meaning rfl h).2 _ run v).2 ?_⟩
  intro s member
  simp only [List.mem_cons, List.not_mem_nil, or_false] at member
  rcases member with rfl | rfl | rfl
  · -- of both branches an item is left
    rintro ⟨f, found, -, usedUp, -⟩
    obtain rfl := Option.some.inj found
    change none ∈ [Junction.conj.join [some (v.item "b" "2")],
      Junction.conj.join [some (v.item "c" "3")]] at usedUp
    simp at usedUp
  · rintro ⟨f, found, -⟩
    exact absurd found (by simp [factoring?, isPlainJunction])
  · rintro ⟨f, found, -⟩
    exact absurd found (by simp [factoring?, isPlainJunction])

/-- Of two branches that share an item, one is that item alone. The tree means the item, but what is
left of it asks for the other branch as well. -/
theorem simplify_forgets_branch :
    (Cond.any [.all none [.item "a" "1", .item "b" "2"], .all none [.item "a" "1"]]).unshared =
      true ∧
    (Cond.any [.all none [.item "a" "1", .item "b" "2"], .all none [.item "a" "1"]]).simplify =
      .ok (.group (.all none [.item "a" "1", .item "b" "2"])) ∧
    (Cond.any [.all none [.item "a" "1", .item "b" "2"], .all none [.item "a" "1"]]).meaning
      (.ofFields ["a"]) = some true ∧
    (Cond.group (.all none [.item "a" "1", .item "b" "2"])).meaning (.ofFields ["a"]) =
      some false := by
  -- the shared item is taken out, and the branch that is left empty becomes no condition
  exact ⟨rfl, by decide +kernel, rfl, rfl⟩

end Cond

end SigmaQuery
