import SigmaQuery.Proofs.SameLeaves
import SigmaQuery.Proofs.SimplifyMeaning

/-!
# The atoms of condition trees

A tree tests atoms: items, plain values, and fields for being empty. Atoms that are equal as data are the
same. A rule may leave out a repetition, or take an atom out of all branches and put it in front of them,
but an atom that is in the tree stays in it, and no rule makes it stand there more often.

How often an atom stands in a tree is a sum over the operands, so each rule is a short calculation: the
rule that takes out what branches share leaves one copy of it where there was one for each branch.
-/

namespace SigmaQuery

open List

namespace Cond

/-! ## Atoms -/

/-- What a tree tests: an item, a plain value, or a field for being empty. -/
inductive Atom where
  | item (field value : Value)
  | plain (v : Value)
  | field (f : Value)
deriving Repr

namespace Atom

/-- The two atoms are the same as data. -/
def same : Atom → Atom → Bool
  | .item f v, .item g w => f.same g && v.same w
  | .plain v, .plain w => v.same w
  | .field f, .field g => f.same g
  | _, _ => false

/-- The atom can stand in a set. -/
def hashable : Atom → Bool
  | .item f v => f.hashable && v.comparable
  | .plain v => v.hashable
  | .field f => f.hashable

end Atom

mutual

/-- The atoms of a tree, from left to right. -/
def atoms : Cond → List Atom
  | .absent => []
  | .all _ items => atomsAll items
  | .any items => atomsAll items
  | .not items => atomsAll items
  | .isNull items => (testedField items).toList.map .field
  | .notNull items => (testedField items).toList.map .field
  | .group inner => atoms inner
  | .seq items => atomsAll items
  | .item f v => [.item f v]
  | .value v => [.plain v]
  | .token _ => []

/-- The atoms of several trees. -/
def atomsAll : List Cond → List Atom
  | [] => []
  | c :: rest => atoms c ++ atomsAll rest

end

/-- How often an atom stands in a tree. -/
def count (a : Atom) (t : Cond) : Nat :=
  t.atoms.countP a.same

/-- How often an atom stands in several trees. -/
def countAll (a : Atom) (items : List Cond) : Nat :=
  (atomsAll items).countP a.same

/-- The atoms of the tree can stand in a set. -/
def AtomsHashable (t : Cond) : Prop :=
  ∀ a ∈ t.atoms, a.hashable = true

theorem atomsAll_eq_flatMap (items : List Cond) : atomsAll items = items.flatMap atoms := by
  induction items with
  | nil => rfl
  | cons c rest ih => rw [atomsAll, ih, flatMap_cons]

variable {items ts cs xs : List Cond} {t c : Cond} {j : Junction} {o : Option Nat}
  {steps : List Step}

theorem mem_atomsAll_iff {a : Atom} : a ∈ atomsAll items ↔ ∃ c ∈ items, a ∈ c.atoms := by
  rw [atomsAll_eq_flatMap, mem_flatMap]

theorem atoms_build (j : Junction) (o : Option Nat) (items : List Cond) :
    (j.build o items).atoms = atomsAll items := by
  cases j <;> rfl

section Counting

variable (a : Atom)

theorem count_build (j : Junction) (o : Option Nat) (items : List Cond) :
    (j.build o items).count a = countAll a items := by
  rw [count, atoms_build, countAll]

theorem countAll_nil : countAll a [] = 0 := rfl

theorem countAll_cons (c : Cond) (rest : List Cond) :
    countAll a (c :: rest) = c.count a + countAll a rest := by
  rw [countAll, atomsAll, countP_append, count, countAll]

theorem countAll_append (xs ys : List Cond) :
    countAll a (xs ++ ys) = countAll a xs + countAll a ys := by
  induction xs with
  | nil => rw [nil_append, countAll_nil, Nat.zero_add]
  | cons x xs ih => rw [cons_append, countAll_cons, countAll_cons, ih, Nat.add_assoc]

variable {c x : Cond} {items rest : List Cond}

theorem count_le_countAll (member : c ∈ items) : c.count a ≤ countAll a items := by
  induction items with
  | nil => cases member
  | cons x rest ih =>
    rw [countAll_cons]
    rcases mem_cons.mp member with rfl | later
    · exact Nat.le_add_right _ _
    · exact Nat.le_trans (ih later) (Nat.le_add_left _ _)

/-! ## Rules that tidy up -/

theorem countAll_filter_split (p : Cond → Bool) (items : List Cond) :
    countAll a items = countAll a (items.filter p) + countAll a (items.filter fun c => !p c) := by
  induction items with
  | nil => rfl
  | cons c rest ih =>
    rw [countAll_cons, filter_cons, filter_cons, ih]
    cases p c with
    | true => simp only [if_true, Bool.not_true, Bool.false_eq_true, if_false, countAll_cons]; omega
    | false => simp only [Bool.false_eq_true, if_false, Bool.not_false, if_true, countAll_cons]; omega

theorem countAll_present (items : List Cond) :
    countAll a (items.filter fun c => !c.isAbsent) = countAll a items := by
  induction items with
  | nil => rfl
  | cons c rest ih =>
    rw [filter_cons, countAll_cons]
    cases c with
    | absent => exact ih.trans (Nat.zero_add _).symm
    | _ => exact (countAll_cons a _ _).trans (congrArg _ ih)

theorem countAll_splice (j : Junction) (c : Cond) : countAll a (splice j c) = c.count a := by
  unfold splice
  split
  · rename_i o items parts
    rw [parts?_eq_some parts, count_build]
  · rw [countAll_cons, countAll_nil, Nat.add_zero]

theorem countAll_flatMap_splice (j : Junction) (items : List Cond) :
    countAll a (items.flatMap (splice j)) = countAll a items := by
  induction items with
  | nil => rfl
  | cons c rest ih => rw [flatMap_cons, countAll_append, countAll_splice, ih, countAll_cons]

theorem count_eq_of_same (same : c.same x = true) (leaf : x.comparable = true) :
    c.count a = x.count a := by
  unfold Cond.same at same
  split at same
  · rfl
  · cases leaf
  · rename_i f v g w
    rw [Bool.and_eq_true] at same
    rw [comparable, Bool.and_eq_true] at leaf
    have equal : a.same (.item f v) = a.same (.item g w) := by
      cases a with
      | item f' v' =>
        rw [Atom.same, Atom.same, Value.same_congr same.1 (Value.comparable_of_hashable leaf.1),
          Value.same_congr same.2 leaf.2]
      | plain _ | field _ => rfl
    simp only [count, atoms, countP_singleton, equal]
  · rename_i v w
    have equal : a.same (.plain v) = a.same (.plain w) := by
      cases a with
      | plain v' => exact Value.same_congr same (Value.comparable_of_hashable leaf) v'
      | item _ _ | field _ => rfl
    simp only [count, atoms, countP_singleton, equal]
  · cases same

/-- An unshared tree whose atoms can stand in a set. -/
structure Plain (t : Cond) : Prop where
  tree : t.unshared = true
  hashable : t.AtomsHashable

theorem Plain.comparable (plain : x.Plain) (same : c.same x = true) : x.comparable = true := by
  have own := plain.tree
  have atom := plain.hashable
  unfold Cond.same at same
  split at same
  · rfl
  · cases own
  · exact atom (.item _ _) mem_cons_self
  · exact atom (.plain _) mem_cons_self
  · cases same

theorem countAll_distinctFrom_le (seen items : List Cond) :
    countAll a (distinctFrom seen items) ≤ countAll a items := by
  induction items generalizing seen with
  | nil => exact Nat.le_refl _
  | cons c rest ih =>
    rw [distinctFrom, countAll_cons]
    split
    · exact Nat.le_trans (ih seen) (Nat.le_add_left _ _)
    · rw [countAll_cons]
      exact Nat.add_le_add_left (ih (c :: seen)) _

/-- An atom of an operand that is left out is one of an operand that was seen before. -/
theorem countAll_distinctFrom_pos {seen : List Cond} (known : ∀ c ∈ seen, c.Plain)
    (plain : ∀ c ∈ items, c.Plain) (pos : 0 < countAll a items) :
    0 < countAll a seen + countAll a (distinctFrom seen items) := by
  induction items generalizing seen with
  | nil => cases pos
  | cons c rest ih =>
    obtain ⟨here, others⟩ := forall_mem_cons.mp plain
    rw [countAll_cons] at pos
    rw [distinctFrom]
    split
    · -- the operand is left out for an earlier one, which has the same atoms
      rename_i repeated
      obtain ⟨x, member, same⟩ := any_eq_true.mp repeated
      have equal := count_eq_of_same a same ((known x member).comparable same)
      have bound := count_le_countAll a member
      by_cases later : 0 < countAll a rest
      · exact ih known others later
      · omega
    · have later := ih (forall_mem_cons.mpr ⟨here, known⟩) others
      rw [countAll_cons] at later ⊢
      by_cases inRest : 0 < countAll a rest
      · have := later inRest
        omega
      · omega

/-! ## Taking out what branches share -/

theorem countAll_eraseSame? (erased : eraseSame? c items = some rest) (plain : ∀ x ∈ items, x.Plain) :
    countAll a items = c.count a + countAll a rest := by
  obtain ⟨before, x, after, same, rfl, rfl⟩ := eraseSame?_eq_some erased
  have here := (plain x (mem_append_right before mem_cons_self)).comparable same
  rw [countAll_append, countAll_append, countAll_cons, count_eq_of_same a same here]
  omega

theorem countAll_eraseEach {cs : List Cond} (erased : eraseEach cs items = .ok rest)
    (plain : ∀ x ∈ items, x.Plain) : countAll a items = countAll a cs + countAll a rest := by
  induction cs generalizing items with
  | nil =>
    obtain rfl := Except.ok.inj erased
    exact (Nat.zero_add _).symm
  | cons c cs ih =>
    obtain ⟨left, first, erased⟩ := eraseEach_cons_eq_ok erased
    have leftPlain : ∀ x ∈ left, x.Plain := fun x member => plain x (mem_of_eraseSame? first member)
    have here := countAll_eraseSame? a first plain
    have later := ih erased leftPlain
    rw [countAll_cons]
    omega

/-- The shared nodes are taken out of every branch, so their atoms are gone once for each branch. -/
theorem countAll_eraseFromBranches {j : Junction} {shared : List Cond}
    {branches left : List (Option Nat × List Cond)}
    (erased : eraseFromBranches shared branches = .ok left)
    (plain : ∀ b ∈ branches, ∀ x ∈ b.2, x.Plain) :
    countAll a (branches.map (branch j)) =
      branches.length * countAll a shared + countAll a (left.map (branch j)) := by
  induction branches generalizing left with
  | nil =>
    obtain rfl := Except.ok.inj erased
    simp [countAll_nil]
  | cons b rest ih =>
    obtain ⟨o, items⟩ := b
    obtain ⟨here, others⟩ := forall_mem_cons.mp plain
    obtain ⟨own, more, first, later, rfl⟩ := eraseFromBranches_cons_eq_ok erased
    have split := countAll_eraseEach a first here
    have tail := ih later others
    simp only [map_cons, countAll_cons, branch, count_build, length_cons, Nat.add_mul,
      Nat.one_mul] at tail ⊢
    omega

end Counting

/-! ## Steps -/

/-- The second tree has the atoms of the first, and none of them more often. -/
def Keeps (t c : Cond) : Prop :=
  ∀ a, c.count a ≤ t.count a ∧ (0 < t.count a → 0 < c.count a)

theorem keeps_of_eq (equal : ∀ a, c.count a = t.count a) : t.Keeps c := by
  intro a
  rw [equal a]
  exact ⟨Nat.le_refl _, id⟩

theorem Keeps.trans {d : Cond} (first : t.Keeps c) (second : c.Keeps d) : t.Keeps d :=
  fun a => ⟨Nat.le_trans (second a).1 (first a).1, fun pos => (second a).2 ((first a).2 pos)⟩

theorem keeps_tidied (step : Tidied j o items c) (plain : ∀ x ∈ items, x.Plain) :
    (j.build o items).Keeps c := by
  cases step with
  | empty nothing =>
    refine keeps_of_eq fun a => ?_
    rw [nothing, count_build]
    rfl
  | present => exact keeps_of_eq fun a => by rw [count_build, count_build, countAll_present]
  | single only =>
    refine keeps_of_eq fun a => ?_
    rw [only, count_build, countAll_cons, countAll_nil, Nat.add_zero]
  | distinct =>
    intro a
    rw [count_build, count_build]
    refine ⟨countAll_distinctFrom_le a [] items, fun pos => ?_⟩
    have still := countAll_distinctFrom_pos a (forall_mem_nil _) plain pos
    rwa [countAll_nil, Nat.zero_add] at still
  | flattened flat =>
    refine keeps_of_eq fun a => ?_
    rw [flattened?_eq_some flat, count_build, count_build, countAll_flatMap_splice]

/-- The shared nodes stand once in front of the branches, and before they stood in each of them. -/
theorem keeps_result {f : Factoring} (found : factoringOf j items = some f)
    (plain : ∀ x ∈ items, ∀ y ∈ x.operands, y.Plain) : (j.build o items).Keeps (f.result o) := by
  obtain ⟨o₁, first, rest, others, rfl, erased, junction, shared, branches⟩ :=
    factoringOf_eq_some found
  have inside : ∀ b ∈ (o₁, first) :: rest, ∀ x ∈ b.2, x.Plain := by
    intro b member x inBranch
    refine plain (branch j b) (mem_map_of_mem member) x ?_
    cases j <;> exact inBranch
  obtain ⟨-, restPlain⟩ := forall_mem_cons.mp inside
  intro a
  have after : (f.result o).count a =
      countAll a f.shared + countAll a (f.branches.map (branch f.junction)) := by
    rw [← countAll_present, ← Factoring.kept, Factoring.result]
    split
    · rename_i noneKept
      rw [List.isEmpty_iff.mp noneKept, Factoring.inner, count_build, countAll_nil, Nat.zero_add]
    · rw [count_build, countAll_append, countAll_cons, countAll_nil, Factoring.inner, count_build,
        Nat.add_zero]
  have before : ((j.build o (((o₁, first) :: rest).map (branch j))).count a) =
      countAll a first + countAll a (rest.map (branch j)) := by
    rw [count_build, map_cons, countAll_cons, branch, count_build]
  -- with n other branches, the shared nodes stood in the tree n + 1 times
  have splitFirst := countAll_filter_split a (fun c => rest.all fun b => memberOf c b.2) first
  have splitRest := countAll_eraseFromBranches (j := j) a erased restPlain
  rw [branches, junction, map_cons, countAll_cons, branch, count_build] at after
  dsimp only at after
  rw [← shared] at splitFirst
  rw [before, after, splitFirst, splitRest]
  constructor
  · omega
  · intro pos
    by_contra zero
    have noShared : countAll a f.shared = 0 := by omega
    rw [noShared, Nat.mul_zero] at pos
    omega

theorem atoms_reduceNot (h : reduceNot items = .ok (some c)) :
    c.atoms = (Cond.not items).atoms := by
  rcases reduceNot_eq_some h with rfl | ⟨f, fs, rfl, rfl⟩ | ⟨f, fs, rfl, rfl⟩
  · simp only [atoms, atomsAll, append_nil]
  all_goals
    simp only [atoms, atomsAll, append_nil]
    cases f <;> rfl

theorem hereditary_atomsHashable : Hereditary AtomsHashable where
  absent _ inside := absurd inside not_mem_nil
  operand {j o items} h c member a inside := by
    refine h a ?_
    rw [atoms_build]
    exact mem_atomsAll_iff.mpr ⟨c, member, inside⟩
  rebuild {j o items items'} _ parts a inside := by
    rw [atoms_build] at inside
    obtain ⟨c, member, own⟩ := mem_atomsAll_iff.mp inside
    exact parts c member a own
  junction j {items} parts a inside := by
    rw [atoms_build] at inside
    obtain ⟨c, member, own⟩ := mem_atomsAll_iff.mp inside
    exact parts c member a own
  negations h step := by
    rw [AtomsHashable, atoms_reduceNot step]
    exact h

theorem hereditary_plain : Hereditary Plain where
  absent := ⟨rfl, hereditary_atomsHashable.absent⟩
  operand h c member :=
    ⟨hereditary_unshared.operand h.tree c member, hereditary_atomsHashable.operand h.hashable c member⟩
  rebuild h parts :=
    ⟨hereditary_unshared.rebuild h.tree fun c member => (parts c member).tree,
      hereditary_atomsHashable.rebuild h.hashable fun c member => (parts c member).hashable⟩
  junction j _ parts :=
    ⟨hereditary_unshared.junction j fun c member => (parts c member).tree,
      hereditary_atomsHashable.junction j fun c member => (parts c member).hashable⟩
  negations h step :=
    ⟨hereditary_unshared.negations h.tree step, hereditary_atomsHashable.negations h.hashable step⟩

theorem Plain.operand {x : Cond} (plain : t.Plain) (member : x ∈ t.operands) : x.Plain := by
  cases t with
  | all o items => exact hereditary_plain.operand (j := .conj) plain x member
  | any items => exact hereditary_plain.operand (j := .disj) (o := none) plain x member
  | not items =>
    refine ⟨unshared_of_mem_operands plain.tree member, fun a inside => ?_⟩
    exact plain.hashable a (mem_atomsAll_iff.mpr ⟨x, member, inside⟩)
  | _ => cases member

/-- A step keeps the atoms of a node and lets none of them stand more often. -/
theorem reduce?_keeps (h : reduce? t = .ok (some c)) (plain : t.Plain) : t.Keeps c := by
  have parts : ∀ x ∈ t.operands, x.Plain := fun x member => plain.operand member
  have junction : ∀ (j : Junction) (o : Option Nat) (items : List Cond),
      (∀ x ∈ items, x.Plain) → reduceJunction j o items = .ok (some c) →
        (j.build o items).Keeps c := by
    intro j o items own reduced
    rcases reduceJunction_cases reduced with ⟨-, step⟩ | ⟨-, f, found, rfl⟩
    · exact keeps_tidied step own
    · exact keeps_result found fun x member y inside => (own x member).operand inside
  cases t with
  | all o items => exact junction .conj o items parts h
  | any items => exact junction .disj none items parts h
  | not items => exact keeps_of_eq fun a => by rw [count, atoms_reduceNot h, count]
  | _ => exact absurd h (by simp [reduce?])

/-! ## Runs -/

theorem countAll_of_keeps (each : Forall₂ Keeps ts cs) (a : Atom) :
    countAll a cs ≤ countAll a ts ∧ (0 < countAll a ts → 0 < countAll a cs) := by
  induction each with
  | nil => exact ⟨Nat.le_refl _, id⟩
  | cons here _ ih =>
    obtain ⟨fewer, still⟩ := here a
    rw [countAll_cons, countAll_cons]
    exact ⟨Nat.add_le_add fewer ih.1, fun pos => by omega⟩

theorem keeps_withOperands (each : Forall₂ Keeps t.operands xs) : t.Keeps (t.withOperands xs) := by
  cases t with
  | all o items | any items | not items => exact countAll_of_keeps each
  | _ => exact keeps_of_eq fun _ => rfl

theorem plain_withOperands (plain : t.Plain) (parts : ∀ x ∈ xs, x.Plain) :
    (t.withOperands xs).Plain := by
  refine ⟨unshared_withOperands plain.tree fun x member => (parts x member).tree, ?_⟩
  have new : ∀ a ∈ atomsAll xs, a.hashable = true := by
    intro a inside
    obtain ⟨x, member, own⟩ := mem_atomsAll_iff.mp inside
    exact (parts x member).hashable a own
  cases t with
  | all o items | any items | not items => exact new
  | _ => exact plain.hashable

theorem stepwise_keeps : Stepwise Plain (fun _ => True) fun t c => t.Keeps c ∧ c.Plain where
  reduced plain step := hereditary_plain.reduce? step plain
  operand plain member := plain.operand member
  step plain _ step first := ⟨(reduce?_keeps step plain).trans first.1, first.2⟩
  rebuild plain each := by
    refine ⟨keeps_withOperands (each.imp fun _ _ h => h.1), plain_withOperands plain ?_⟩
    exact forall_of_forall₂ (each.imp fun _ _ h _ => h.2) fun x member => plain.operand member

theorem Settles.keeps (h : Settles t steps c) (plain : t.Plain) : t.Keeps c :=
  (stepwise_keeps.settles (fun _ kept => kept.2)
    (fun first later => ⟨first.1.trans later.1, later.2⟩) h plain fun _ _ => trivial).1

/-! ## Brackets -/

theorem atomsAll_of_forall₂ {ds : List Cond} (each : Forall₂ (fun c d => d.atoms = c.atoms) items ds) :
    atomsAll ds = atomsAll items := by
  rw [atomsAll_eq_flatMap, atomsAll_eq_flatMap, flatMap_def, flatMap_def, map_eq_of_forall₂ each]

theorem nodewise_atoms :
    Nodewise fun t bare => bare.atoms = t.atoms ∧ bare.field? = t.field? where
  group h := h
  junction j {o items ds} each := by
    rw [atoms_build, atoms_build]
    exact ⟨atomsAll_of_forall₂ (each.imp fun _ _ h => h.1), by cases j <;> rfl⟩
  isNull each := ⟨by rw [atoms, atoms, testedField_of_forall₂ (each.imp fun _ _ h => h.2)], rfl⟩
  notNull each := ⟨by rw [atoms, atoms, testedField_of_forall₂ (each.imp fun _ _ h => h.2)], rfl⟩
  same _ := ⟨rfl, rfl⟩

theorem bracketwise_atoms : Bracketwise fun c d => d.atoms = c.atoms where
  junction j {o items ds} each := by
    rw [atoms, atoms_build, atoms_build, atomsAll_of_forall₂ each]
  same _ := rfl

theorem atoms_bracket (c : Cond) : c.bracket.atoms = c.atoms :=
  bracketwise_atoms.bracket c

/-- **The simplification keeps the atoms**: let the atoms of a tree be such that they can stand in a set.
If the tree is simplified, an atom is in the simplified tree exactly if it is in the tree, and it stands
there no more often. -/
theorem simplify_atoms {t u : Cond} (tree : t.unshared = true) (hashable : t.AtomsHashable)
    (h : t.simplify = .ok u) (a : Atom) :
    ((∃ b ∈ u.atoms, a.same b = true) ↔ ∃ b ∈ t.atoms, a.same b = true) ∧
      u.atoms.countP a.same ≤ t.atoms.countP a.same := by
  obtain ⟨steps, bare, c, stripped, settles, rfl⟩ := (simplify_eq_ok_iff tree).mp h
  have bareAtoms : bare.atoms = t.atoms := (nodewise_atoms.strip stripped).1
  have plain : bare.Plain := ⟨nodewise_unshared.strip stripped tree, by rwa [AtomsHashable, bareAtoms]⟩
  obtain ⟨fewer, still⟩ := settles.keeps plain a
  rw [count, count, bareAtoms] at fewer still
  rw [atoms_bracket]
  refine ⟨?_, fewer⟩
  rw [← List.countP_pos_iff, ← List.countP_pos_iff]
  exact ⟨fun pos => Nat.lt_of_lt_of_le pos fewer, still⟩

/-- Two branches that share an item. One has another item besides, the other tests a field. -/
def sharedItem : Cond :=
  .any [.all none [.item "a" "1", .item "b" "2"], .all none [.item "a" "1", .isNull [.value "f"]]]

/-- The shared item stands in the tree twice, and once when it has been taken out of the branches. -/
theorem simplify_atoms_sharedItem :
    sharedItem.unshared = true ∧ sharedItem.AtomsHashable ∧
    sharedItem.simplify = .ok (.group (.all none [.item "a" "1",
      .group (.any [.item "b" "2", .isNull [.value "f"]])])) ∧
    sharedItem.atoms.countP (Atom.item "a" "1").same = 2 ∧
    ((∃ b ∈ (Cond.group (.all none [.item "a" "1",
        .group (.any [.item "b" "2", .isNull [.value "f"]])])).atoms,
          (Atom.item "a" "1").same b = true) ↔
      ∃ b ∈ sharedItem.atoms, (Atom.item "a" "1").same b = true) ∧
    (Cond.group (.all none [.item "a" "1",
        .group (.any [.item "b" "2", .isNull [.value "f"]])])).atoms.countP (Atom.item "a" "1").same ≤
      sharedItem.atoms.countP (Atom.item "a" "1").same := by
  have h : sharedItem.simplify = .ok (.group (.all none [.item "a" "1",
      .group (.any [.item "b" "2", .isNull [.value "f"]])])) := by decide +kernel
  have hashable : sharedItem.AtomsHashable := by
    unfold AtomsHashable
    decide
  exact ⟨rfl, hashable, h, rfl, simplify_atoms rfl hashable h (.item "a" "1")⟩

end Cond

end SigmaQuery
