import Mathlib.Data.List.Forall2
import SigmaQuery.Condition.Simplify

/-!
# Runs of the simplification

What a single reduction step can do is said once, in `reduceJunction_cases`: it tidies up a
junction, or it takes out what all branches share. A whole run is a list of such steps. `Passes`
tells which steps a pass over a row of trees takes, and `Settles` does so for the passes up to the
one without a step. A relation between trees and what becomes of them that holds step by step
(`Stepwise`) holds of whole runs, by induction over these two.

A conjunction that belongs to a log source may stand in several places, and then an item that one
place loses is gone from all. A tree without one is *unshared*: its nodes are its own.

Main statement: the simplification of an unshared tree gives exactly what its runs end with
(`simplify_eq_ok_iff`).
-/

namespace SigmaQuery

open List Junction

namespace Cond

/-! ## Unshared trees -/

mutual

/-- No conjunction in the tree belongs to a log source. -/
def unshared : Cond → Bool
  | .all o items => o.isNone && unsharedAll items
  | .any items => unsharedAll items
  | .not items => unsharedAll items
  | .isNull items => unsharedAll items
  | .notNull items => unsharedAll items
  | .seq items => unsharedAll items
  | .group inner => unshared inner
  | .absent => true
  | .item _ _ => true
  | .value _ => true
  | .token _ => true

/-- The same for several trees. -/
def unsharedAll : List Cond → Bool
  | [] => true
  | c :: rest => unshared c && unsharedAll rest

end

/-- What is asked of several trees, one after the other, is asked of each of them. -/
theorem each_iff (each : List Cond → Prop) {P : Cond → Prop} (nil : each [])
    (cons : ∀ c rest, each (c :: rest) ↔ P c ∧ each rest) (items : List Cond) :
    each items ↔ ∀ c ∈ items, P c := by
  induction items with
  | nil => exact iff_of_true nil (forall_mem_nil _)
  | cons c rest ih => rw [cons, ih, forall_mem_cons]

theorem unsharedAll_iff (items : List Cond) :
    unsharedAll items = true ↔ ∀ c ∈ items, c.unshared = true :=
  each_iff (unsharedAll · = true) rfl (fun _ _ => Bool.and_eq_true_iff) items

theorem unshared_build_none (j : Junction) (items : List Cond) :
    (j.build none items).unshared = true ↔ ∀ c ∈ items, c.unshared = true := by
  rw [← unsharedAll_iff]
  cases j <;> simp [build, unshared]

/-! ## Taking out what is shared -/

/-- How a junction of opposite junctions is taken apart: what all its branches share, and what is
left of each branch. -/
structure Factoring where
  junction : Junction
  shared : List Cond
  branches : List (Option Nat × List Cond)

namespace Factoring

/-- The junction of what is left of the branches. -/
def inner (f : Factoring) (o : Option Nat) : Cond :=
  f.junction.build o (f.branches.map (branch f.junction))

/-- The shared nodes that are conditions. -/
def kept (f : Factoring) : List Cond :=
  f.shared.filter fun c => !c.isAbsent

/-- The shared nodes and the junction of what is left, joined. -/
def result (f : Factoring) (o : Option Nat) : Cond :=
  if f.kept.isEmpty then f.inner o else f.junction.dual.build none (f.kept ++ [f.inner o])

end Factoring

/-- The way to take out what the operands of a junction share, if they share something. -/
def factoringOf (j : Junction) (items : List Cond) : Option Factoring :=
  match branches? j items with
  | some ((o, first) :: rest) =>
    let isShared := fun c => rest.all fun b => memberOf c b.2
    match eraseFromBranches (first.filter isShared) rest with
    | .error _ => none
    | .ok others =>
      if (first.filter isShared).isEmpty then none
      else some ⟨j, first.filter isShared, (o, first.filter fun c => !isShared c) :: others⟩
  | _ => none

/-- The way to take out what the operands of a node share, for a node to which no earlier rule
applies. -/
def factoring? : Cond → Option Factoring
  | .all _ items => if isPlainJunction .conj items then factoringOf .conj items else none
  | .any items => if isPlainJunction .disj items then factoringOf .disj items else none
  | _ => none

theorem factoring?_build (j : Junction) (o : Option Nat) (items : List Cond) :
    (j.build o items).factoring? =
      if isPlainJunction j items then factoringOf j items else none := by
  cases j <;> rfl

variable {j : Junction} {o : Option Nat} {items rest cs ts xs ds : List Cond} {c x t u : Cond}
  {branches : List (Option Nat × List Cond)} {steps : List Step} {ls gone : List Loss}
  {changed : Bool}

theorem factored_eq_some (h : factored j o items = .ok (some c)) :
    ∃ f, factoringOf j items = some f ∧ c = f.result o := by
  unfold factored at h
  split at h
  · exact absurd h (by simp)
  · exact absurd h (by simp)
  · rename_i o₁ first rest found
    split at h
    · exact absurd h (by simp)
    · dsimp only at h
      split at h
      · exact absurd h (by simp)
      · rename_i someShared
        split at h
        · exact absurd h (by simp)
        · rename_i others erased
          refine ⟨_, by simp only [factoringOf, found, erased, if_neg someShared]; rfl, ?_⟩
          split at h
          · rename_i noneKept
            obtain rfl := Option.some.inj (Except.ok.inj h)
            exact (if_pos noneKept).symm
          · rename_i someKept
            obtain rfl := Option.some.inj (Except.ok.inj h)
            exact (if_neg someKept).symm

/-- What is known of a factoring: the operands are branches, and the shared nodes are taken out of
each of them. -/
theorem factoringOf_eq_some {f : Factoring} (h : factoringOf j items = some f) :
    ∃ o first rest others, items = ((o, first) :: rest).map (branch j) ∧
      eraseFromBranches f.shared rest = .ok others ∧ f.junction = j ∧
      f.shared = (first.filter fun c => rest.all fun b => memberOf c b.2) ∧
      f.branches = (o, first.filter fun c => !rest.all fun b => memberOf c b.2) :: others := by
  unfold factoringOf at h
  split at h
  · rename_i o first rest found
    dsimp only at h
    split at h
    · exact absurd h (by simp)
    · rename_i others erased
      split at h
      · exact absurd h (by simp)
      · obtain rfl := Option.some.inj h
        exact ⟨o, first, rest, others, branches?_map_branch found, erased, rfl, rfl, rfl⟩
  · exact absurd h (by simp)

/-! ## What a reduction step does to a junction -/

/-- The junction is tidied up: an operand that adds nothing is left out, or a junction is replaced
by its operands. -/
inductive Tidied (j : Junction) (o : Option Nat) (items : List Cond) : Cond → Prop
  | empty (nothing : items = []) : Tidied j o items .absent
  | present : Tidied j o items (j.build o (items.filter fun c => !c.isAbsent))
  | single {c : Cond} (only : items = [c]) : Tidied j o items c
  | distinct : Tidied j o items (j.build o (distinct items))
  | flattened {merged : List Cond} (flat : flattened? j items = some merged) :
      Tidied j o items (j.build o merged)

/-- A reduction step tidies up a junction, or takes out what its operands share. -/
theorem reduceJunction_cases (h : reduceJunction j o items = .ok (some c)) :
    (isPlainJunction j items = false ∧ Tidied j o items c) ∨
      (isPlainJunction j items = true ∧ ∃ f, factoringOf j items = some f ∧ c = f.result o) := by
  have step := reduceJunction_step j o items
  rw [h] at step
  cases step with
  | empty nothing => exact .inl ⟨by simp [isPlainJunction, nothing], .empty nothing⟩
  | present known => exact .inl ⟨by simp only [isPlainJunction, known]; simp, .present⟩
  | single only => exact .inl ⟨by simp [isPlainJunction, only], .single only⟩
  | distinct shorter =>
    refine .inl ⟨?_, .distinct⟩
    have differ : ((distinct items).length == items.length) = false := by
      rw [beq_eq_false_iff_ne]
      omega
    simp only [isPlainJunction, differ]
    simp
  | flattened flat => exact .inl ⟨by simp [isPlainJunction, flat], .flattened flat⟩
  | plain plain found => exact .inr ⟨plain, factored_eq_some found⟩

/-! ## Nodes of the result come from the tree -/

theorem mem_of_eraseSame? (h : eraseSame? c items = some rest) (member : x ∈ rest) : x ∈ items := by
  obtain ⟨before, y, after, -, rfl, rfl⟩ := eraseSame?_eq_some h
  exact (Sublist.append_left (sublist_cons_self y after) before).mem member

theorem mem_of_eraseEach (h : eraseEach cs items = .ok rest) (member : x ∈ rest) : x ∈ items := by
  induction cs generalizing items with
  | nil =>
    obtain rfl := Except.ok.inj h
    exact member
  | cons c cs ih =>
    obtain ⟨left, erased, h⟩ := eraseEach_cons_eq_ok h
    exact mem_of_eraseSame? erased (ih h)

theorem exists_of_eraseFromBranches {shared : List Cond} {left : List (Option Nat × List Cond)}
    (h : eraseFromBranches shared branches = .ok left) {b : Option Nat × List Cond}
    (member : b ∈ left) : ∃ items, (b.1, items) ∈ branches ∧ ∀ c ∈ b.2, c ∈ items := by
  induction branches generalizing left with
  | nil =>
    obtain rfl := Except.ok.inj h
    exact absurd member (by simp)
  | cons first rest ih =>
    obtain ⟨o, items⟩ := first
    obtain ⟨own, others, erased, erasedRest, rfl⟩ := eraseFromBranches_cons_eq_ok h
    rcases mem_cons.mp member with rfl | later
    · exact ⟨items, mem_cons_self, fun c inOwn => mem_of_eraseEach erased inOwn⟩
    · obtain ⟨items', found, part⟩ := ih erasedRest later
      exact ⟨items', mem_cons_of_mem _ found, part⟩

theorem mem_of_distinctFrom {seen : List Cond} (member : x ∈ distinctFrom seen items) :
    x ∈ items := by
  induction items generalizing seen with
  | nil => exact absurd member (by simp [distinctFrom])
  | cons c rest ih =>
    unfold distinctFrom at member
    split at member
    · exact mem_cons_of_mem c (ih member)
    · rcases mem_cons.mp member with rfl | later
      · exact mem_cons_self
      · exact mem_cons_of_mem c (ih later)

theorem parts?_eq_some (h : j.parts? c = some (o, items)) : c = j.build o items := by
  cases j <;> cases c <;> simp_all [parts?, build]

/-- An operand that a junction takes up is an operand of its own or of an operand. -/
theorem exists_of_mem_splice (member : x ∈ splice j c) :
    x = c ∨ ∃ o items, c = j.build o items ∧ x ∈ items := by
  unfold splice at member
  split at member
  · rename_i o items parts
    exact .inr ⟨o, items, parts?_eq_some parts, member⟩
  · exact .inl (mem_singleton.mp member)

theorem flattened?_eq_some {merged : List Cond} (h : flattened? j items = some merged) :
    merged = items.flatMap (splice j) := by
  unfold flattened? at h
  split at h
  · exact (Option.some.inj h).symm
  · exact absurd h (by simp)

/-- A property that goes from a junction to its operands and back, and that the rules for negations
keep. -/
structure Hereditary (P : Cond → Prop) : Prop where
  absent : P .absent
  operand : ∀ {j : Junction} {o : Option Nat} {items : List Cond},
    P (j.build o items) → ∀ c ∈ items, P c
  rebuild : ∀ {j : Junction} {o : Option Nat} {items items' : List Cond},
    P (j.build o items) → (∀ c ∈ items', P c) → P (j.build o items')
  junction : ∀ (j : Junction) {items : List Cond}, (∀ c ∈ items, P c) → P (j.build none items)
  negations : ∀ {items : List Cond} {c : Cond},
    P (.not items) → reduceNot items = .ok (some c) → P c

namespace Hereditary

variable {P : Cond → Prop} (H : Hereditary P) {j : Junction} {o : Option Nat} {items : List Cond}
include H

theorem tidied {c : Cond} (step : Tidied j o items c) (whole : P (j.build o items)) : P c := by
  have parts := H.operand whole
  cases step with
  | empty nothing => exact H.absent
  | present => exact H.rebuild whole fun c member => parts c (mem_filter.mp member).1
  | single only => exact parts c (by simp [only])
  | distinct => exact H.rebuild whole fun c member => parts c (mem_of_distinctFrom member)
  | flattened flat =>
    refine H.rebuild whole fun x member => ?_
    rw [flattened?_eq_some flat, mem_flatMap] at member
    obtain ⟨c, inItems, spliced⟩ := member
    rcases exists_of_mem_splice spliced with rfl | ⟨o', items', rfl, inner⟩
    · exact parts x inItems
    · exact H.operand (parts _ inItems) x inner

theorem result {f : Factoring} (found : factoringOf j items = some f)
    (whole : P (j.build o items)) : P (f.result o) := by
  obtain ⟨o₁, first, rest, others, rfl, erased, junction, shared, branches⟩ :=
    factoringOf_eq_some found
  have parts := H.operand whole
  have branchHas : ∀ b ∈ (o₁, first) :: rest, P (branch j b) :=
    fun b member => parts _ (mem_map_of_mem member)
  have firstHas : ∀ c ∈ first, P c := H.operand (branchHas (o₁, first) mem_cons_self)
  have innerHas : P (f.inner o) := by
    rw [Factoring.inner, junction, branches]
    refine H.rebuild whole fun c member => ?_
    obtain ⟨b, inLeft, rfl⟩ := mem_map.mp member
    rcases mem_cons.mp inLeft with rfl | later
    · exact H.rebuild (branchHas (o₁, first) mem_cons_self)
        fun c own => firstHas c (mem_filter.mp own).1
    · obtain ⟨old, found, part⟩ := exists_of_eraseFromBranches erased later
      have oldHas := branchHas (b.1, old) (mem_cons_of_mem _ found)
      exact H.rebuild oldHas fun c left => H.operand oldHas c (part c left)
  unfold Factoring.result
  split
  · exact innerHas
  · refine H.junction _ fun c member => ?_
    rcases mem_append.mp member with kept | last
    · have inShared := (mem_filter.mp kept).1
      rw [shared] at inShared
      exact firstHas c (mem_filter.mp inShared).1
    · rw [mem_singleton.mp last]
      exact innerHas

theorem reduceJunction {c : Cond} (h : reduceJunction j o items = .ok (some c))
    (whole : P (j.build o items)) : P c := by
  rcases reduceJunction_cases h with ⟨-, step⟩ | ⟨-, f, found, rfl⟩
  · exact H.tidied step whole
  · exact H.result found whole

theorem reduce? {t c : Cond} (h : reduce? t = .ok (some c)) (whole : P t) : P c := by
  cases t with
  | all o items => exact H.reduceJunction (j := .conj) h whole
  | any items => exact H.reduceJunction (j := .disj) (o := none) h whole
  | not items => exact H.negations whole h
  | _ => exact absurd h (by simp [Cond.reduce?])

end Hereditary

/-! ## Unshared trees stay unshared and lose nothing -/

theorem hereditary_unshared : Hereditary fun c => c.unshared = true where
  absent := rfl
  operand {j o items} h := by
    rw [← unsharedAll_iff]
    cases j <;> simp_all [build, unshared]
  rebuild {j o items items'} h parts := by
    rw [← unsharedAll_iff] at parts
    cases j <;> simp_all [build, unshared]
  junction j {items} parts := (unshared_build_none j items).mpr parts
  negations {items c} h step := by
    rcases reduceNot_eq_some step with rfl | ⟨f, fs, rfl, rfl⟩ | ⟨f, fs, rfl, rfl⟩
    · simpa [unshared, unsharedAll] using h
    · cases f <;> simp_all [notNullTest, unshared, unsharedAll]
    · cases f <;> simp_all [nullTest, unshared, unsharedAll]

theorem unshared_of_mem_operands (tree : t.unshared = true) (member : x ∈ t.operands) :
    x.unshared = true := by
  cases t with
  | all o items =>
    have parts : unsharedAll items = true := by simp_all [unshared]
    exact (unsharedAll_iff items).mp parts x member
  | any items | not items => exact (unsharedAll_iff items).mp tree x member
  | _ => exact absurd member (by simp [operands])

theorem branchLosses_eq_nil (shared : List Cond) (own : ∀ b ∈ branches, b.1 = none) :
    branchLosses shared branches = [] := by
  induction branches with
  | nil => rfl
  | cons b rest ih =>
    obtain ⟨o, items⟩ := b
    obtain rfl : o = none := own (o, items) mem_cons_self
    have later := ih fun b member => own b (mem_cons_of_mem _ member)
    simp [branchLosses, later]

theorem losses_eq_nil (tree : t.unshared = true) : losses t = [] := by
  cases t with
  | any items =>
    rw [losses]
    split
    · split
      · rename_i o first rest found
        split
        · rfl
        · refine branchLosses_eq_nil _ fun b member => ?_
          have inItems : branch .disj b ∈ items := by
            rw [branches?_map_branch found]
            exact mem_map_of_mem member
          have whole := (unsharedAll_iff items).mp tree _ inItems
          obtain ⟨source, inside⟩ := b
          cases source with
          | none => rfl
          | some k => simp [branch, dual, build, unshared] at whole
      · rfl
    · rfl
  | _ => rfl

/-! ## Runs as lists of steps -/

/-- A reduction step: a node and what it is replaced by. -/
abbrev Step := Cond × Cond

/-- One pass over a row of trees: the trees, the steps that are taken, and the trees after it. -/
inductive Passes : List Cond → List Step → List Cond → Prop
  | nil : Passes [] [] []
  | reduce {t d : Cond} {ts : List Cond} {steps : List Step} {cs : List Cond}
      (step : reduce? t = .ok (some d)) (next : Passes (d :: ts) steps cs) :
      Passes (t :: ts) ((t, d) :: steps) cs
  | operands {t : Cond} {ts : List Cond} {below steps : List Step} {xs cs : List Cond}
      (stuck : reduce? t = .ok none) (inner : Passes t.operands below xs)
      (rest : Passes ts steps cs) :
      Passes (t :: ts) (below ++ steps) (t.withOperands xs :: cs)

/-- Passes up to the first one without a step. -/
inductive Settles : Cond → List Step → Cond → Prop
  | done {t c : Cond} (last : Passes [t] [] [c]) : Settles t [] c
  | again {t d c : Cond} {steps more : List Step} (some_step : steps ≠ [])
      (first : Passes [t] steps [d]) (later : Settles d more c) : Settles t (steps ++ more) c

/-- The whole simplification: brackets off, passes, brackets on. -/
def Simplifies (t : Cond) (steps : List Step) (u : Cond) : Prop :=
  ∃ bare c, strip t = .ok bare ∧ Settles bare steps c ∧ u = bracket c

theorem Passes.item (f x : Value) (rest : Passes ts steps cs) :
    Passes (.item f x :: ts) steps (.item f x :: cs) :=
  Passes.operands (t := .item f x) rfl .nil rest

/-- A relation between trees and what passes make of them, for trees with a property that reduction and
going on to operands keep, and for steps of a kind. -/
structure Stepwise (P : Cond → Prop) (S : Step → Prop) (R : Cond → Cond → Prop) : Prop where
  reduced : ∀ {t d : Cond}, P t → reduce? t = .ok (some d) → P d
  operand : ∀ {t x : Cond}, P t → x ∈ t.operands → P x
  step : ∀ {t d c : Cond}, P t → S (t, d) → reduce? t = .ok (some d) → R d c → R t c
  rebuild : ∀ {t : Cond} {xs : List Cond}, P t → Forall₂ R t.operands xs → R t (t.withOperands xs)

namespace Stepwise

variable {P : Cond → Prop} {S : Step → Prop} {R : Cond → Cond → Prop}

theorem passes (W : Stepwise P S R) (h : Passes ts steps cs) (trees : ∀ t ∈ ts, P t)
    (kind : ∀ s ∈ steps, S s) : Forall₂ R ts cs := by
  induction h with
  | nil => exact .nil
  | reduce step next ih =>
    obtain ⟨here, others⟩ := forall_mem_cons.mp trees
    obtain ⟨own, later⟩ := forall_mem_cons.mp kind
    cases ih (forall_mem_cons.mpr ⟨W.reduced here step, others⟩) later with
    | cons first rest => exact .cons (W.step here own step first) rest
  | operands stuck inner rest ihInner ihRest =>
    obtain ⟨here, others⟩ := forall_mem_cons.mp trees
    obtain ⟨below, later⟩ := forall_mem_append.mp kind
    have inside := ihInner (fun x member => W.operand here member) below
    exact .cons (W.rebuild here inside) (ihRest others later)

theorem pass (W : Stepwise P S R) (h : Passes [t] steps [c]) (tree : P t)
    (kind : ∀ s ∈ steps, S s) : R t c := by
  cases W.passes h (forall_mem_singleton.mpr tree) kind with
  | cons here _ => exact here

/-- If the relation is transitive, it holds between a tree and what it settles to. -/
theorem settles (W : Stepwise P S R) (after : ∀ {t c : Cond}, P t → R t c → P c)
    (trans : ∀ {t d c : Cond}, R t d → R d c → R t c) (h : Settles t steps c) (tree : P t)
    (kind : ∀ s ∈ steps, S s) : R t c := by
  induction h with
  | done last => exact W.pass last tree kind
  | again some_step first later ih =>
    obtain ⟨sooner, next⟩ := forall_mem_append.mp kind
    have here := W.pass first tree sooner
    exact trans here (ih (after tree here) next)

end Stepwise

theorem Passes.append {us ys : List Cond} {more : List Step} (left : Passes ts steps xs)
    (right : Passes us more ys) : Passes (ts ++ us) (steps ++ more) (xs ++ ys) := by
  induction left with
  | nil => exact right
  | reduce step next ih => exact .reduce step ih
  | operands stuck inner rest _ ih =>
    rw [append_assoc]
    exact .operands stuck inner ih

mutual

/-- A pass over an unshared tree is a list of steps, and it changes something if there is one. -/
theorem exists_passes_of_pass {t c : Cond} {changed : Bool} {ls : List Loss}
    (tree : t.unshared = true) (h : pass [] t = (.ok (c, changed), ls)) :
    ls = [] ∧ ∃ steps, Passes [t] steps [c] ∧ (changed = true ↔ steps ≠ []) := by
  rcases pass_cases h with ⟨d, inner, step, rfl, deeper⟩ | ⟨items, stuck, below, rfl⟩
  · have lighter := weight_reduce? step
    rw [losses_eq_nil tree, append_nil, after_nil] at deeper
    obtain ⟨rfl, steps, passes, -⟩ :=
      exists_passes_of_pass (hereditary_unshared.reduce? step tree) deeper
    exact ⟨rfl, _, .reduce step passes, by simp⟩
  · have lighter := weights_operands_lt t
    obtain ⟨rfl, steps, passes, changes⟩ :=
      exists_passes_of_passAll (fun x member => unshared_of_mem_operands tree member) below
    refine ⟨rfl, steps, ?_, changes⟩
    rw [← append_nil steps]
    exact .operands stuck passes .nil
termination_by 2 * t.weight
decreasing_by all_goals omega

theorem exists_passes_of_passAll {ts cs : List Cond} {changed : Bool} {ls : List Loss}
    (trees : ∀ t ∈ ts, t.unshared = true) (h : passAll [] ts = (.ok (cs, changed), ls)) :
    ls = [] ∧ ∃ steps, Passes ts steps cs ∧ (changed = true ↔ steps ≠ []) := by
  match ts, trees, h with
  | [], _, h =>
    rw [passAll] at h
    cases h
    exact ⟨rfl, [], .nil, by simp⟩
  | t :: rest, trees, h =>
    have sum := weights_cons t rest
    have pos := weight_pos t
    obtain ⟨c, first, sooner, others, more, here, there, rfl, rfl⟩ := passAll_cons_cases h
    obtain ⟨rfl, steps, passes, changes⟩ :=
      exists_passes_of_pass (trees t mem_cons_self) here
    have unchanged : rest.map (after []) = rest := by simp [funext after_nil]
    rw [unchanged] at there
    obtain ⟨rfl, steps', passes', changes'⟩ :=
      exists_passes_of_passAll (fun x member => trees x (mem_cons_of_mem t member)) there
    refine ⟨rfl, steps ++ steps', passes.append passes', ?_⟩
    rw [Bool.or_eq_true, changes, changes']
    simp [Decidable.or_iff_not_imp_left]
termination_by 2 * weights ts + 1
decreasing_by all_goals omega

end

theorem unshared_withOperands (tree : t.unshared = true) (parts : ∀ x ∈ xs, x.unshared = true) :
    (t.withOperands xs).unshared = true := by
  rw [← unsharedAll_iff] at parts
  cases t with
  | all o items => simp_all [withOperands, unshared]
  | any items | not items => exact parts
  | _ => exact tree

theorem Passes.unshared (h : Passes ts steps cs) (trees : ∀ t ∈ ts, t.unshared = true) :
    (∀ s ∈ steps, s.1.unshared = true) ∧ ∀ c ∈ cs, c.unshared = true := by
  induction h with
  | nil => exact ⟨by simp, by simp⟩
  | reduce step next ih =>
    obtain ⟨here, others⟩ := forall_mem_cons.mp trees
    have reduced := hereditary_unshared.reduce? step here
    obtain ⟨stepsTrees, after⟩ := ih (forall_mem_cons.mpr ⟨reduced, others⟩)
    exact ⟨forall_mem_cons.mpr ⟨here, stepsTrees⟩, after⟩
  | operands stuck inner rest ihInner ihRest =>
    obtain ⟨here, others⟩ := forall_mem_cons.mp trees
    obtain ⟨belowTrees, inside⟩ := ihInner fun x member => unshared_of_mem_operands here member
    obtain ⟨laterTrees, after⟩ := ihRest others
    refine ⟨fun s member => ?_, forall_mem_cons.mpr ⟨unshared_withOperands here inside, after⟩⟩
    rcases mem_append.mp member with below | later
    · exact belowTrees s below
    · exact laterTrees s later

theorem Passes.unshared_single (h : Passes [t] steps [c]) (tree : t.unshared = true) :
    (∀ s ∈ steps, s.1.unshared = true) ∧ c.unshared = true := by
  obtain ⟨stepsTrees, after⟩ := h.unshared (forall_mem_singleton.mpr tree)
  exact ⟨stepsTrees, after c (mem_singleton_self c)⟩

theorem Passes.reduce?_eq (h : Passes ts steps cs) : ∀ s ∈ steps, reduce? s.1 = .ok (some s.2) := by
  induction h with
  | nil => simp
  | reduce step next ih => exact forall_mem_cons.mpr ⟨step, ih⟩
  | operands stuck inner rest ihInner ihRest =>
    intro s member
    rcases mem_append.mp member with below | later
    · exact ihInner s below
    · exact ihRest s later

/-- Every step of a run on an unshared tree is a reduction of an unshared node. -/
theorem Settles.forall_step (h : Settles t steps c) (tree : t.unshared = true) :
    ∀ s ∈ steps, s.1.unshared = true ∧ reduce? s.1 = .ok (some s.2) := by
  induction h with
  | done last => simp
  | again some_step first later ih =>
    obtain ⟨stepsTrees, after⟩ := first.unshared_single tree
    intro s member
    rcases mem_append.mp member with sooner | next
    · exact ⟨stepsTrees s sooner, first.reduce?_eq s sooner⟩
    · exact ih after s next

theorem exists_settles_of_settle {t c : Cond} {ls : List Loss} (tree : t.unshared = true)
    (h : settle [] t = (.ok c, ls)) : ∃ steps, Settles t steps c := by
  unfold settle at h
  split at h
  · exact absurd h (by simp)
  · rename_i d ls' _found
    simp only [Prod.mk.injEq, Except.ok.injEq] at h
    obtain ⟨rfl, rfl⟩ := h
    obtain ⟨-, steps, passes, changes⟩ := exists_passes_of_pass tree _found
    obtain rfl : steps = [] := by simpa using changes
    exact ⟨[], .done passes⟩
  · rename_i d ls' _found
    obtain ⟨rfl, steps, passes, changes⟩ := exists_passes_of_pass tree _found
    have lighter : d.weight < t.weight := by
      have := weight_pass _ t _found
      simp only [if_true] at this
      omega
    obtain ⟨more, later⟩ := exists_settles_of_settle (passes.unshared_single tree).2 h
    exact ⟨steps ++ more, .again (changes.mp rfl) passes later⟩
termination_by t.weight
decreasing_by omega

/-! ## Every list of steps is a run -/

theorem pass_of_reduce {d : Cond} (tree : t.unshared = true) (step : reduce? t = .ok (some d))
    (next : pass [] d = (.ok (c, changed), [])) : pass [] t = (.ok (c, true), []) := by
  rw [pass]
  split
  · simp_all
  · rename_i d' found
    obtain rfl : d' = d := by simp_all
    rw [losses_eq_nil tree, append_nil, after_nil, next]
  · simp_all

theorem pass_of_stuck (stuck : reduce? t = .ok none)
    (inner : passAll [] t.operands = (.ok (xs, changed), [])) :
    pass [] t = (.ok (t.withOperands xs, changed), []) := by
  rw [pass]
  split
  · simp_all
  · simp_all
  · rw [inner]

theorem passAll_cons_iff (tree : t.unshared = true) :
    passAll [] (t :: ts) = (.ok (cs, changed), []) ↔
      ∃ c first others more, pass [] t = (.ok (c, first), []) ∧
        passAll [] ts = (.ok (others, more), []) ∧ cs = c :: others ∧
        changed = (first || more) := by
  have unchanged : ts.map (after []) = ts := by simp [funext after_nil]
  constructor
  · intro h
    obtain ⟨c, first, sooner, others, more, here, there, rfl, rfl⟩ := passAll_cons_cases h
    obtain ⟨rfl, -⟩ := exists_passes_of_pass tree here
    rw [unchanged] at there
    exact ⟨c, first, others, more, here, there, rfl, rfl⟩
  · rintro ⟨c, first, others, more, here, there, rfl, rfl⟩
    rw [passAll, here]
    simp only [unchanged, there, after_nil]

theorem Passes.passAll_eq (h : Passes ts steps cs) (trees : ∀ t ∈ ts, t.unshared = true) :
    passAll [] ts = (.ok (cs, !steps.isEmpty), []) := by
  induction h with
  | nil => simp [passAll]
  | reduce step next ih =>
    obtain ⟨here, others⟩ := forall_mem_cons.mp trees
    have reduced := hereditary_unshared.reduce? step here
    have later := ih (forall_mem_cons.mpr ⟨reduced, others⟩)
    obtain ⟨c, first, rest, more, passed, passedRest, rfl, -⟩ :=
      (passAll_cons_iff reduced).mp later
    exact (passAll_cons_iff here).mpr
      ⟨c, true, rest, more, pass_of_reduce here step passed, passedRest, rfl, rfl⟩
  | @operands _ _ below _ _ _ stuck inner rest ihInner ihRest =>
    obtain ⟨here, others⟩ := forall_mem_cons.mp trees
    have passed := ihInner fun x member => unshared_of_mem_operands here member
    refine (passAll_cons_iff here).mpr
      ⟨_, _, _, _, pass_of_stuck stuck passed, ihRest others, rfl, ?_⟩
    cases below <;> rfl

theorem Passes.pass_eq (h : Passes [t] steps [c]) (tree : t.unshared = true) :
    pass [] t = (.ok (c, !steps.isEmpty), []) := by
  have row := h.passAll_eq (forall_mem_singleton.mpr tree)
  obtain ⟨c', first, others, more, passed, passedRest, same, changed⟩ :=
    (passAll_cons_iff tree).mp row
  simp only [passAll, Prod.mk.injEq, Except.ok.injEq] at passedRest
  obtain ⟨⟨rfl, rfl⟩, -⟩ := passedRest
  rw [singleton_inj.mp same, passed, changed, Bool.or_false]

theorem Settles.settle_eq (h : Settles t steps c) (tree : t.unshared = true) :
    settle [] t = (.ok c, []) := by
  induction h with
  | done last =>
    have passed := last.pass_eq tree
    rw [settle]
    split <;> simp_all
  | again some_step first later ih =>
    have passed := first.pass_eq tree
    have changed := isEmpty_eq_false_iff.mpr some_step
    have settled := ih (first.unshared_single tree).2
    rw [changed, Bool.not_false] at passed
    rw [settle]
    split <;> simp_all

/-! ## Taking brackets off -/

/-- A node that taking brackets off leaves alone. -/
def keepsBrackets : Cond → Bool
  | .absent => true
  | .not _ => true
  | .seq _ => true
  | .item _ _ => true
  | .value _ => true
  | .token _ => true
  | _ => false

theorem map_eq_ok {α β : Type} {f : α → β} {x : Except Fault α} {b : β} (h : x.map f = .ok b) :
    ∃ a, x = .ok a ∧ f a = b := by
  cases x with
  | error e => exact absurd h (by simp [Except.map])
  | ok a => exact ⟨a, rfl, Except.ok.inj h⟩

/-- A relation between trees and trees without brackets that carries over from the parts of a node
to the node. -/
structure Nodewise (R : Cond → Cond → Prop) : Prop where
  group : ∀ {inner bare : Cond}, R inner bare → R (.group inner) bare
  junction : ∀ (j : Junction) {o : Option Nat} {items ds : List Cond},
    Forall₂ R items ds → R (j.build o items) (j.build o ds)
  isNull : ∀ {items ds : List Cond}, Forall₂ R items ds → R (.isNull items) (.isNull ds)
  notNull : ∀ {items ds : List Cond}, Forall₂ R items ds → R (.notNull items) (.notNull ds)
  same : ∀ {c : Cond}, c.keepsBrackets = true → R c c

namespace Nodewise

variable {R : Cond → Cond → Prop}

mutual

/-- Such a relation holds between a tree and the tree with its brackets taken off. -/
theorem strip (N : Nodewise R) {t bare : Cond} (h : t.strip = .ok bare) : R t bare := by
  match t, h with
  | .group inner, h =>
    refine N.group (N.strip ?_)
    unfold Cond.strip at h
    split at h
    · exact absurd h (by simp)
    · exact absurd h (by simp)
    all_goals simp_all
  | .all o items, h =>
    obtain ⟨ds, stripped, rfl⟩ := map_eq_ok (by simpa only [Cond.strip] using h)
    exact N.junction .conj (N.stripAll stripped)
  | .any items, h =>
    obtain ⟨ds, stripped, rfl⟩ := map_eq_ok (by simpa only [Cond.strip] using h)
    exact N.junction .disj (o := none) (N.stripAll stripped)
  | .isNull items, h =>
    obtain ⟨ds, stripped, rfl⟩ := map_eq_ok (by simpa only [Cond.strip] using h)
    exact N.isNull (N.stripAll stripped)
  | .notNull items, h =>
    obtain ⟨ds, stripped, rfl⟩ := map_eq_ok (by simpa only [Cond.strip] using h)
    exact N.notNull (N.stripAll stripped)
  | .value x, h =>
    have unchanged : bare = .value x := by cases x <;> simp_all [Cond.strip]
    rw [unchanged]
    exact N.same rfl
  | .absent, h | .not items, h | .seq items, h | .item f x, h | .token t, h =>
    obtain rfl := Except.ok.inj h
    exact N.same rfl

theorem stripAll (N : Nodewise R) {items ds : List Cond} (h : Cond.stripAll items = .ok ds) :
    Forall₂ R items ds := by
  match items, h with
  | [], h =>
    obtain rfl := Except.ok.inj h
    exact .nil
  | c :: rest, h =>
    unfold Cond.stripAll at h
    split at h
    · exact absurd h (by simp)
    · rename_i d stripped
      obtain ⟨others, strippedRest, rfl⟩ := map_eq_ok h
      exact .cons (N.strip stripped) (N.stripAll strippedRest)

end

end Nodewise

theorem map_eq_of_forall₂ {α : Type} {f : Cond → α}
    (h : Forall₂ (fun c d => f d = f c) items ds) : ds.map f = items.map f := by
  induction h with
  | nil => rfl
  | cons here _ ih => rw [map_cons, map_cons, here, ih]

/-- A relation between trees and trees in brackets that carries over from the operands of a junction to
the junction. -/
structure Bracketwise (R : Cond → Cond → Prop) : Prop where
  junction : ∀ (j : Junction) {o : Option Nat} {items ds : List Cond},
    Forall₂ R items ds → R (j.build o items) (.group (j.build o ds))
  same : ∀ {c : Cond}, c.bracket = c → R c c

namespace Bracketwise

variable {R : Cond → Cond → Prop}

mutual

theorem bracket (B : Bracketwise R) (c : Cond) : R c c.bracket := by
  match c with
  | .all o items => exact B.junction .conj (o := o) (B.bracketAll items)
  | .any items => exact B.junction .disj (o := none) (B.bracketAll items)
  | .absent | .not _ | .isNull _ | .notNull _ | .group _ | .seq _ | .item _ _ | .value _ |
    .token _ => exact B.same rfl

theorem bracketAll (B : Bracketwise R) (items : List Cond) :
    Forall₂ R items (Cond.bracketAll items) := by
  match items with
  | [] => exact .nil
  | c :: rest => exact .cons (B.bracket c) (B.bracketAll rest)

end

end Bracketwise

/-- What carries over from each tree to its partner carries over from all to all. -/
theorem forall_of_forall₂ {P Q : Cond → Prop}
    (h : Forall₂ (fun t bare => P t → Q bare) items ds) (all : ∀ c ∈ items, P c) :
    ∀ d ∈ ds, Q d := by
  induction h with
  | nil => exact fun d member => absurd member (by simp)
  | cons here _ ih =>
    intro d member
    rcases mem_cons.mp member with rfl | later
    · exact here (all _ mem_cons_self)
    · exact ih (fun c known => all c (mem_cons_of_mem _ known)) d later

theorem nodewise_unshared :
    Nodewise fun t bare => t.unshared = true → bare.unshared = true where
  group h tree := h tree
  junction _ {_ _ _} h tree :=
    hereditary_unshared.rebuild tree (forall_of_forall₂ h (hereditary_unshared.operand tree))
  isNull {items ds} h tree :=
    (unsharedAll_iff ds).mpr (forall_of_forall₂ h ((unsharedAll_iff items).mp tree))
  notNull {items ds} h tree :=
    (unsharedAll_iff ds).mpr (forall_of_forall₂ h ((unsharedAll_iff items).mp tree))
  same _ tree := tree

/-- A run tells what the simplification gives, and nothing is lost. -/
theorem Simplifies.simplified_eq (h : t.Simplifies steps u) (tree : t.unshared = true) :
    t.simplified = (.ok u, []) := by
  obtain ⟨bare, c, stripped, settles, rfl⟩ := h
  have settled := settles.settle_eq (nodewise_unshared.strip stripped tree)
  rw [simplified, stripped]
  simp only [settled, Except.map]

/-- The simplification of an unshared tree gives exactly what its runs end with. -/
theorem simplify_eq_ok_iff (tree : t.unshared = true) :
    t.simplify = .ok u ↔ ∃ steps, t.Simplifies steps u := by
  constructor
  · intro h
    unfold simplify simplified at h
    split at h
    · exact absurd h (by simp)
    · rename_i bare stripped
      split at h
      rename_i result ls settled
      obtain ⟨c, rfl, rfl⟩ := map_eq_ok h
      obtain ⟨steps, settles⟩ :=
        exists_settles_of_settle (nodewise_unshared.strip stripped tree) settled
      exact ⟨steps, bare, c, stripped, settles, rfl⟩
  · rintro ⟨steps, run⟩
    rw [simplify, run.simplified_eq tree]

theorem Simplifies.forall_step (h : t.Simplifies steps u) (tree : t.unshared = true) :
    ∀ s ∈ steps, s.1.unshared = true ∧ reduce? s.1 = .ok (some s.2) := by
  obtain ⟨bare, c, stripped, settles, rfl⟩ := h
  exact settles.forall_step (nodewise_unshared.strip stripped tree)

end Cond

end SigmaQuery
