import SigmaQuery.Condition.Simplify

/-!
# The meaning of condition trees

A valuation gives a truth value to every atom: an item, a plain value, or a field that is tested for
being empty. Under a valuation a tree is true, false, or no constraint at all. What is no constraint
is skipped by the junction around it, a junction that is left without operands is no constraint
itself, and neither is the negation of what is none.

Each junction has a value that decides it: one false operand decides a conjunction, one true operand
a disjunction. A junction is pinned down by two questions, whether it is decided and whether it
constrains at all (`Junction.join_ext`), so every law below is checked on these two alone.
-/

namespace SigmaQuery

open List

/-! ## Joining truth values -/

namespace Junction

/-- The operand that decides a junction, whatever the others are. -/
def decisive : Junction → Bool
  | .conj => false
  | .disj => true

/-- The joined value of operands; those that are no constraint are skipped. -/
def join (j : Junction) (xs : List (Option Bool)) : Option Bool :=
  match xs.filterMap id with
  | [] => none
  | bs => some (match j with
    | .conj => bs.all id
    | .disj => bs.any id)

theorem decisive_dual (j : Junction) : j.dual.decisive = !j.decisive := by
  cases j <;> rfl

/-- A junction is no constraint exactly if none of its operands is one. -/
theorem join_eq_none_iff (j : Junction) (xs : List (Option Bool)) :
    j.join xs = none ↔ ∀ x ∈ xs, x = none := by
  have filtered : xs.filterMap id = [] ↔ ∀ x ∈ xs, x = none := by
    rw [filterMap_eq_nil_iff]
    rfl
  rw [← filtered]
  unfold join
  generalize xs.filterMap id = bs
  cases bs <;> simp

theorem join_eq_decisive_iff (j : Junction) (xs : List (Option Bool)) :
    j.join xs = some j.decisive ↔ some j.decisive ∈ xs := by
  have filtered : some j.decisive ∈ xs ↔ j.decisive ∈ xs.filterMap id := by
    rw [mem_filterMap]
    simp
  rw [filtered]
  unfold join
  generalize xs.filterMap id = bs
  cases bs with
  | nil => simp
  | cons b bs => cases j <;> cases b <;> simp [decisive]

/-- Two values are the same if they are decisive together and no constraint together. -/
theorem join_ext (j : Junction) {x y : Option Bool}
    (decided : x = some j.decisive ↔ y = some j.decisive) (free : x = none ↔ y = none) : x = y := by
  cases j <;> rcases x with _ | _ | _ <;> rcases y with _ | _ | _ <;> simp_all [decisive]

theorem join_congr (j : Junction) {xs ys : List (Option Bool)}
    (same : ∀ b, some b ∈ xs ↔ some b ∈ ys) : j.join xs = j.join ys := by
  apply j.join_ext
  · rw [join_eq_decisive_iff, join_eq_decisive_iff]
    exact same j.decisive
  · rw [join_eq_none_iff, join_eq_none_iff]
    have absent : ∀ zs : List (Option Bool), (∀ z ∈ zs, z = none) ↔ ∀ b, some b ∉ zs := by
      intro zs
      constructor
      · intro h b member
        exact absurd (h _ member) (by simp)
      · intro h z member
        cases z with
        | none => rfl
        | some b => exact absurd member (h b)
    rw [absent, absent]
    exact forall_congr' fun b => not_congr (same b)

@[simp] theorem join_singleton (j : Junction) (x : Option Bool) : j.join [x] = x := by
  cases j <;> rcases x with _ | _ | _ <;> rfl

theorem join_append (j : Junction) (xs ys : List (Option Bool)) :
    j.join (xs ++ ys) = j.join [j.join xs, j.join ys] := by
  apply j.join_ext
  · rw [join_eq_decisive_iff, join_eq_decisive_iff, mem_append, mem_cons,
      mem_singleton, eq_comm, join_eq_decisive_iff, eq_comm (b := j.join ys),
      join_eq_decisive_iff]
  · simp only [join_eq_none_iff, mem_append, mem_cons, not_mem_nil, or_false,
      forall_eq_or_imp, forall_eq]
    constructor
    · intro h
      exact ⟨fun x member => h x (.inl member), fun x member => h x (.inr member)⟩
    · rintro ⟨left, right⟩ x (member | member)
      · exact left x member
      · exact right x member

theorem join_cons (j : Junction) (x : Option Bool) (xs : List (Option Bool)) :
    j.join (x :: xs) = j.join [x, j.join xs] := by
  have := j.join_append [x] xs
  rwa [join_singleton, singleton_append] at this

theorem join_flatMap {α : Type} (j : Junction) (value : α → Option Bool) (row : α → List α)
    (joined : ∀ a, j.join ((row a).map value) = value a) (items : List α) :
    j.join ((items.flatMap row).map value) = j.join (items.map value) := by
  induction items with
  | nil => rfl
  | cons a rest ih =>
    rw [flatMap_cons, map_append, join_append, joined, ih, map_cons, ← join_cons]

/-! ## Taking a common operand out

The distributive law has an exception here. Where a branch is the common operand alone, nothing is
left of it, and a branch of which nothing is left is no constraint: it does not count. But before it
was a branch of its own, which the common operand decides.
-/

theorem join_none_left (j : Junction) (x : Option Bool) : j.join [none, x] = x := by
  cases j <;> rcases x with _ | _ | _ <;> rfl

theorem join_decisive_left (j : Junction) (x : Option Bool) :
    j.join [some j.decisive, x] = some j.decisive := by
  rw [join_eq_decisive_iff]
  exact mem_cons_self

/-- Where the common operand does not decide a branch, what is left of the branch does, if anything
is. -/
theorem dual_join_decisive_left (j : Junction) (x : Option Bool) :
    j.dual.join [some j.decisive, x] = some (x.getD j.decisive) := by
  cases j <;> rcases x with _ | _ | _ <;> rfl

theorem join_const {α : Type} (j : Junction) {items : List α} (nonempty : items ≠ [])
    (x : Option Bool) : j.join (items.map fun _ => x) = x := by
  obtain ⟨a, member⟩ := exists_mem_of_ne_nil items nonempty
  have once : j.join (items.map fun _ => x) = j.join [x] := by
    apply j.join_congr
    intro b
    rw [mem_map, mem_singleton]
    constructor
    · rintro ⟨-, -, same⟩
      exact same.symm
    · intro same
      exact ⟨a, member, same.symm⟩
  rw [once, join_singleton]

/-- The common operand may be taken out of the branches unless three things come together: it does
not decide them, nothing is left of one branch, and what is left of the others is not decided. -/
theorem dual_join_join_iff (j : Junction) (common : Option Bool) {left : List (Option Bool)}
    (nonempty : left ≠ []) :
    j.dual.join [common, j.join left] = j.join (left.map fun x => j.dual.join [common, x]) ↔
      ¬ (common = some j.decisive ∧ none ∈ left ∧ j.join left = some !j.decisive) := by
  rcases common with _ | b
  · simp [join_none_left]
  by_cases decides : b = j.decisive
  · subst decides
    simp only [dual_join_decisive_left, true_and]
    by_cases usedUp : none ∈ left
    · -- the branch of which nothing is left decides the whole, so the rest must do so too
      have whole : j.join (left.map fun x => some (x.getD j.decisive)) = some j.decisive := by
        rw [join_eq_decisive_iff, mem_map]
        exact ⟨none, usedUp, rfl⟩
      rw [whole]
      cases j <;> rcases join _ left with _ | _ | _ <;> simp_all [decisive]
    · have unchanged : left.map (fun x => some (x.getD j.decisive)) = left := by
        refine (map_congr_left fun x member => ?_).trans (map_id left)
        cases x with
        | none => exact absurd member usedUp
        | some b => rfl
      have constrains : j.join left ≠ none := by
        rw [ne_eq, join_eq_none_iff]
        intro free
        obtain ⟨x, member⟩ := exists_mem_of_ne_nil left nonempty
        exact usedUp (free x member ▸ member)
      obtain ⟨b, joined⟩ := Option.ne_none_iff_exists'.mp constrains
      simp [unchanged, joined, usedUp]
  · obtain rfl : b = j.dual.decisive := by
      rw [decisive_dual]
      cases b <;> cases h : j.decisive <;> simp_all
    simp only [join_decisive_left, join_const j nonempty]
    simp [decides]

end Junction

/-! ## Valuations and meanings -/

/-- Truth values for the atoms of condition trees. Items and plain values that are equal as data are
the same atom. -/
structure Valuation where
  item : Value → Value → Bool
  plain : Value → Bool
  isNull : Value → Bool
  item_same : ∀ {f g x y : Value}, f.same g = true → x.same y = true → item f x = item g y
  plain_same : ∀ {x y : Value}, x.same y = true → plain x = plain y

theorem Value.text?_eq_of_same {x y : Value} (h : x.same y = true) : x.text? = y.text? := by
  cases x <;> cases y <;> simp_all [Value.same, Value.text?, Value.number?]

/-- The valuation under which the items of some fields hold, and nothing else does. -/
def Valuation.ofFields (fields : List String) : Valuation where
  item f _ := f.text?.any fields.contains
  plain _ := false
  isNull _ := false
  item_same same _ := by rw [Value.text?_eq_of_same same]
  plain_same _ := rfl

namespace Cond

/-- The field that a node names. -/
def field? : Cond → Option Value
  | .value f => some f
  | .group inner => inner.field?
  | _ => none

/-- The field that a test for an empty field is about. -/
def testedField (items : List Cond) : Option Value :=
  items.head?.bind field?

mutual

/-- The meaning of a tree: its truth value, or none if it is no constraint. -/
def meaning (v : Valuation) : Cond → Option Bool
  | .absent => none
  | .all _ items => Junction.conj.join (meanings v items)
  | .any items => Junction.disj.join (meanings v items)
  | .not items => (meanings v items).head?.join.map (!·)
  | .isNull items => (testedField items).map v.isNull
  | .notNull items => (testedField items).map fun f => !v.isNull f
  | .group inner => meaning v inner
  | .seq _ => none
  | .item f x => some (v.item f x)
  | .value x => some (v.plain x)
  | .token _ => none

/-- The meanings of several trees. -/
def meanings (v : Valuation) : List Cond → List (Option Bool)
  | [] => []
  | c :: rest => meaning v c :: meanings v rest

end

variable (v : Valuation)

theorem meanings_eq_map (items : List Cond) : meanings v items = items.map (meaning v) := by
  induction items with
  | nil => rfl
  | cons c rest ih => exact congrArg (c.meaning v :: ·) ih

theorem meaning_build (j : Junction) (o : Option Nat) (items : List Cond) :
    (j.build o items).meaning v = j.join (items.map (meaning v)) := by
  rw [← meanings_eq_map]
  cases j <;> rfl

theorem meaning_not (c : Cond) : (Cond.not [c]).meaning v = (c.meaning v).map (!·) := rfl

theorem meaning_group (c : Cond) : (Cond.group c).meaning v = c.meaning v := rfl

mutual

/-- The tree holds an atom. Of a negation only the first operand counts. -/
def hasAtom : Cond → Bool
  | .absent => false
  | .all _ items => anyHasAtom items
  | .any items => anyHasAtom items
  | .not [] => false
  | .not (c :: _) => hasAtom c
  | .isNull items => (testedField items).isSome
  | .notNull items => (testedField items).isSome
  | .group inner => hasAtom inner
  | .seq _ => false
  | .item _ _ => true
  | .value _ => true
  | .token _ => false

/-- One of the trees holds an atom. -/
def anyHasAtom : List Cond → Bool
  | [] => false
  | c :: rest => hasAtom c || anyHasAtom rest

end

mutual

theorem meaning_eq_none_iff (t : Cond) : t.meaning v = none ↔ t.hasAtom = false := by
  match t with
  | .all _ items | .any items =>
    rw [meaning, hasAtom, Junction.join_eq_none_iff]
    exact meanings_eq_none_iff items
  | .not [] => exact ⟨fun _ => rfl, fun _ => rfl⟩
  | .not (c :: _) =>
    rw [meaning, hasAtom, meanings, head?_cons, Option.join_some, Option.map_eq_none_iff]
    exact meaning_eq_none_iff c
  | .isNull items | .notNull items => simp [meaning, hasAtom]
  | .group inner =>
    rw [meaning, hasAtom]
    exact meaning_eq_none_iff inner
  | .absent | .seq _ | .token _ => exact ⟨fun _ => rfl, fun _ => rfl⟩
  | .item _ _ | .value _ => simp [meaning, hasAtom]

theorem meanings_eq_none_iff (items : List Cond) :
    (∀ x ∈ meanings v items, x = none) ↔ anyHasAtom items = false := by
  match items with
  | [] => simp [meanings, anyHasAtom]
  | c :: rest =>
    rw [meanings, forall_mem_cons, anyHasAtom, Bool.or_eq_false_iff, meaning_eq_none_iff c,
      meanings_eq_none_iff rest]

end

/-- A junction of operands that have the same meanings, in whatever number and order. -/
theorem meaning_build_congr (j : Junction) (o o' : Option Nat) {xs ys : List Cond}
    (same : ∀ b, (∃ c ∈ xs, c.meaning v = some b) ↔ ∃ c ∈ ys, c.meaning v = some b) :
    (j.build o xs).meaning v = (j.build o' ys).meaning v := by
  rw [meaning_build, meaning_build]
  apply j.join_congr
  intro b
  rw [mem_map, mem_map]
  exact same b

/-! ## Truth from the leaves

Where every junction has operands, a tree is true or false once each of its leaves is. What a leaf is
true of is left to the language that the tree is written in.
-/

mutual

/-- The tree is true, given which of its leaves are. A negation is true if none of its operands is. -/
def holds (leaf : Cond → Prop) : Cond → Prop
  | .all _ items => allHold leaf items
  | .any items => someHolds leaf items
  | .not items => ¬ someHolds leaf items
  | .group inner => holds leaf inner
  | c => leaf c

/-- All of the trees are true. -/
def allHold (leaf : Cond → Prop) : List Cond → Prop
  | [] => True
  | c :: rest => holds leaf c ∧ allHold leaf rest

/-- One of the trees is true. -/
def someHolds (leaf : Cond → Prop) : List Cond → Prop
  | [] => False
  | c :: rest => holds leaf c ∨ someHolds leaf rest

end

end Cond

end SigmaQuery
