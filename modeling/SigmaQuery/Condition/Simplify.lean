import SigmaQuery.Condition.Sharing

/-!
# Simplification of condition trees

A tree is simplified in three steps. First the brackets are taken away, except under a negation.
Then the tree is reduced until nothing changes. At last a bracket is put around each conjunction
and each disjunction.

The reduction works in passes. A pass reduces a node as long as a rule applies to it, and then goes
on to its operands:

* a junction of nothing is no condition, and one of a single operand is that operand;
* operands that are no condition, or the same as an earlier one, are left out;
* a junction of items and junctions of its own kind takes up their operands;
* what all operands of a junction of opposite junctions share is taken out of them;
* two negations cancel each other, and a negation turns a test for an empty field around.

A branch from which shared operands are taken may be the conjunction of a log source. The losses of
such conjunctions are carried along, and every part of the tree is brought up to date with them before
it is reduced and at the end of the pass.

Main statements: a reduction step makes the tree lighter (`weight_reduce?`), and so does a pass that
changes something (`weight_pass`). So both end.
-/

namespace SigmaQuery

namespace Cond

/-! ## Weight -/

mutual

/-- The weight of a tree. A junction weighs less than what it can be made from by sharing. -/
def weight : Cond → Nat
  | .absent => 1
  | .all none items => 2 + weights items
  | .all (some _) items => 3 + weights items
  | .any items => 2 + weights items
  | .not items => 3 + weights items
  | .isNull items => 3 + weights items
  | .notNull items => 3 + weights items
  | .group inner => 3 + weight inner
  | .seq items => 3 + weights items
  | .item _ _ => 3
  | .value _ => 3
  | .token _ => 3

def weights : List Cond → Nat
  | [] => 0
  | c :: rest => weight c + weights rest

end

theorem weight_pos (c : Cond) : 0 < c.weight := by
  cases c with
  | all o items => cases o <;> simp only [weight] <;> omega
  | _ => simp only [weight]; omega

theorem weights_cons (c : Cond) (cs : List Cond) : weights (c :: cs) = c.weight + weights cs := rfl

theorem weights_append (xs ys : List Cond) : weights (xs ++ ys) = weights xs + weights ys := by
  induction xs with
  | nil => simp [weights]
  | cons x xs ih => simp only [List.cons_append, weights, ih]; omega

theorem weights_filter_le (p : Cond → Bool) (xs : List Cond) :
    weights (xs.filter p) ≤ weights xs := by
  induction xs with
  | nil => simp [weights]
  | cons x xs ih =>
    rw [List.filter_cons]
    split <;> simp only [weights] <;> omega

def junctionWeight : Junction → Option Nat → Nat
  | .conj, some _ => 3
  | _, _ => 2

theorem weight_build (j : Junction) (o : Option Nat) (items : List Cond) :
    (j.build o items).weight = junctionWeight j o + weights items := by
  cases j <;> cases o <;> rfl

theorem two_le_junctionWeight (j : Junction) (o : Option Nat) : 2 ≤ junctionWeight j o := by
  cases j <;> cases o <;> simp [junctionWeight]

/-! ## Rules for junctions -/

/-- The operands without repetition; `seen` holds the earlier ones. -/
def distinctFrom (seen : List Cond) : List Cond → List Cond
  | [] => []
  | c :: rest =>
    if c.memberOf seen then distinctFrom seen rest else c :: distinctFrom (c :: seen) rest

def distinct (items : List Cond) : List Cond :=
  distinctFrom [] items

/-- What an operand gives to a junction that takes up the operands of its own kind. -/
def splice (j : Junction) (c : Cond) : List Cond :=
  match j.parts? c with
  | some (_, items) => items
  | none => [c]

/-- The operands after taking up those of junctions of the same kind, where there is one and all
others are items. -/
def flattened? (j : Junction) (items : List Cond) : Option (List Cond) :=
  if items.any (fun c => (j.parts? c).isSome) &&
      items.all (fun c => (j.parts? c).isSome || c.isItem) then
    some (items.flatMap (splice j))
  else none

/-- The list without one item for each of the given nodes. -/
def eraseEach : List Cond → List Cond → Except Fault (List Cond)
  | [], items => .ok items
  | c :: cs, items => match eraseSame? c items with
    | none => .error .noValue
    | some rest => eraseEach cs rest

/-- Takes the shared nodes out of each branch. -/
def eraseFromBranches (shared : List Cond) :
    List (Option Nat × List Cond) → Except Fault (List (Option Nat × List Cond))
  | [] => .ok []
  | (o, items) :: rest => match eraseEach shared items with
    | .error e => .error e
    | .ok left => match eraseFromBranches shared rest with
      | .error e => .error e
      | .ok branches => .ok ((o, left) :: branches)

/-- The branches of a junction all of whose operands are opposite junctions. -/
def branches? (j : Junction) : List Cond → Option (List (Option Nat × List Cond))
  | [] => some []
  | c :: rest => match j.dual.parts? c, branches? j rest with
    | some b, some bs => some (b :: bs)
    | _, _ => none

def branch (j : Junction) (b : Option Nat × List Cond) : Cond :=
  j.dual.build b.1 b.2

/-- Takes what all branches share out of a junction of opposite junctions. The shared nodes are
those of the first branch that every other branch has. -/
def factored (j : Junction) (o : Option Nat) (items : List Cond) : Except Fault (Option Cond) :=
  match branches? j items with
  | none => .ok none
  | some [] => .ok none
  | some ((o₁, first) :: rest) =>
    if ((o₁, first) :: rest).any (fun b => b.2.any isToken) then
      .error (.unoffered .tokenComparison)
    else
      let isShared := fun c => rest.all fun b => memberOf c b.2
      let shared := first.filter isShared
      let own := first.filter fun c => !isShared c
      if shared.isEmpty then .ok none
      else match eraseFromBranches shared rest with
        | .error e => .error e
        | .ok others =>
          let inner := j.build o (((o₁, own) :: others).map (branch j))
          let kept := shared.filter fun c => !c.isAbsent
          if kept.isEmpty then .ok (some inner)
          else .ok (some (j.dual.build none (kept ++ [inner])))

/-- The rules for a junction, in their order. -/
def reduceJunction (j : Junction) (o : Option Nat) (items : List Cond) :
    Except Fault (Option Cond) :=
  if items.isEmpty then .ok (some .absent)
  else if items.any isToken then .error (.unoffered .tokenComparison)
  else if items.any isAbsent then
    .ok (some (j.build o (items.filter fun c => !c.isAbsent)))
  else match items with
    | [c] => .ok (some c)
    | _ =>
      if !items.all hashable then .error .wrongType
      else if (distinct items).length < items.length then .ok (some (j.build o (distinct items)))
      else match flattened? j items with
        | some merged => .ok (some (j.build o merged))
        | none => factored j o items

def reduceNot : List Cond → Except Fault (Option Cond)
  | [.not [c]] => .ok (some c)
  | [.not _] => .error .broken
  | [.isNull (f :: _)] => .ok (some (notNullTest f))
  | [.isNull []] => .error .noItem
  | [.notNull (f :: _)] => .ok (some (nullTest f))
  | [.notNull []] => .error .noItem
  | [_] => .ok none
  | _ => .error .broken

/-- The result of the first rule that applies to the node, if one does. -/
def reduce? : Cond → Except Fault (Option Cond)
  | .all o items => reduceJunction .conj o items
  | .any items => reduceJunction .disj none items
  | .not items => reduceNot items
  | _ => .ok none

/-! ## Losses of shared conjunctions -/

/-- The nodes that are taken out of a list one after another, up to the first one that is not
there. -/
def taken : List Cond → List Cond → List Cond
  | [], _ => []
  | c :: cs, items => match eraseSame? c items with
    | none => []
    | some rest => c :: taken cs rest

/-- What the conjunctions of log sources among the branches lose when the shared nodes are taken out
of each branch. -/
def branchLosses (shared : List Cond) : List (Option Nat × List Cond) → List Loss
  | [] => []
  | (o, items) :: rest =>
    let gone := taken shared items
    let own := match o with
      | some source => gone.map (Loss.mk source)
      | none => []
    if gone.length = shared.length then own ++ branchLosses shared rest else own

/-- No rule before the one for shared operands applies to a junction with these operands. -/
def isPlainJunction (j : Junction) (items : List Cond) : Bool :=
  2 ≤ items.length && !items.any isToken && !items.any isAbsent && items.all hashable &&
    (distinct items).length == items.length && (flattened? j items).isNone

/-- What the conjunctions of log sources lose when the first rule that applies to the node is
applied, or fails. -/
def losses : Cond → List Loss
  | .any items =>
    if isPlainJunction .disj items then match branches? .disj items with
      | some ((o, first) :: rest) =>
        if ((o, first) :: rest).any (fun b => b.2.any isToken) then []
        else branchLosses (first.filter fun c => rest.all fun b => memberOf c b.2)
          ((o, first) :: rest)
      | _ => []
    else []
  | _ => []

/-! ## What the rules can do -/

theorem eraseSame?_eq_some {c : Cond} {items rest : List Cond} (h : eraseSame? c items = some rest) :
    ∃ before x after, c.same x = true ∧ items = before ++ x :: after ∧ rest = before ++ after := by
  induction items generalizing rest with
  | nil => cases h
  | cons x xs ih =>
    rw [eraseSame?] at h
    split at h
    · rename_i same
      exact ⟨[], x, xs, same, rfl, (Option.some.inj h).symm⟩
    · obtain ⟨ys, erased, rfl⟩ := Option.map_eq_some_iff.mp h
      obtain ⟨before, y, after, same, rfl, rfl⟩ := ih erased
      exact ⟨x :: before, y, after, same, rfl, rfl⟩

theorem eraseEach_cons_eq_ok {c : Cond} {cs items rest : List Cond}
    (h : eraseEach (c :: cs) items = .ok rest) :
    ∃ left, eraseSame? c items = some left ∧ eraseEach cs left = .ok rest := by
  rw [eraseEach] at h
  split at h
  · cases h
  · exact ⟨_, ‹_›, h⟩

theorem eraseFromBranches_cons_eq_ok {shared items : List Cond} {o : Option Nat}
    {rest left : List (Option Nat × List Cond)}
    (h : eraseFromBranches shared ((o, items) :: rest) = .ok left) :
    ∃ own others, eraseEach shared items = .ok own ∧
      eraseFromBranches shared rest = .ok others ∧ left = (o, own) :: others := by
  rw [eraseFromBranches] at h
  split at h
  · cases h
  · split at h <;> cases h
    exact ⟨_, _, ‹_›, ‹_›, rfl⟩

theorem length_distinctFrom_le (seen items : List Cond) :
    (distinctFrom seen items).length ≤ items.length := by
  induction items generalizing seen with
  | nil => simp [distinctFrom]
  | cons c rest ih =>
    unfold distinctFrom
    split
    · exact Nat.le_succ_of_le (ih seen)
    · exact Nat.succ_le_succ (ih (c :: seen))

/-- What the rules make of a junction, with what is known where each of them applies. -/
inductive JunctionStep (j : Junction) (o : Option Nat) (items : List Cond) :
    Except Fault (Option Cond) → Prop
  | empty (nothing : items = []) : JunctionStep j o items (.ok (some .absent))
  | token (known : items.any isToken = true) :
      JunctionStep j o items (.error (.unoffered .tokenComparison))
  | present (known : items.any isAbsent = true) :
      JunctionStep j o items (.ok (some (j.build o (items.filter fun c => !c.isAbsent))))
  | single {c : Cond} (only : items = [c]) : JunctionStep j o items (.ok (some c))
  | unhashable (noToken : items.any isToken = false) (known : items.all hashable = false) :
      JunctionStep j o items (.error .wrongType)
  | distinct (shorter : (distinct items).length < items.length) :
      JunctionStep j o items (.ok (some (j.build o (distinct items))))
  | flattened {merged : List Cond} (flat : flattened? j items = some merged) :
      JunctionStep j o items (.ok (some (j.build o merged)))
  | plain (plain : isPlainJunction j items = true) {r : Except Fault (Option Cond)}
      (found : factored j o items = r) : JunctionStep j o items r

theorem reduceJunction_step (j : Junction) (o : Option Nat) (items : List Cond) :
    JunctionStep j o items (reduceJunction j o items) := by
  unfold reduceJunction
  split
  · rename_i nothing
    exact .empty (List.isEmpty_iff.mp nothing)
  · rename_i nonempty
    split
    · rename_i known
      exact .token known
    · rename_i noToken
      rw [Bool.not_eq_true] at noToken
      split
      · rename_i known
        exact .present known
      · rename_i noAbsent
        split
        · exact .single rfl
        · rename_i several
          split
          · rename_i known
            exact .unhashable noToken (by simpa using known)
          · rename_i hashable
            split
            · rename_i shorter
              exact .distinct shorter
            · rename_i noShorter
              split
              · rename_i merged flat
                exact .flattened flat
              · rename_i notFlat
                have two : 2 ≤ items.length := by
                  match items, nonempty, several with
                  | [], e, _ => exact absurd rfl e
                  | [x], _, s => exact absurd rfl (s x)
                  | _ :: _ :: _, _, _ => simp
                have bound : (distinct items).length ≤ items.length :=
                  length_distinctFrom_le [] items
                have equal : (distinct items).length = items.length := by omega
                refine .plain ?_ rfl
                simp only [isPlainJunction, two, notFlat, equal]
                simp_all

theorem two_le_of_isPlainJunction {j : Junction} {items : List Cond}
    (plain : isPlainJunction j items = true) : 2 ≤ items.length := by
  simp only [isPlainJunction, Bool.and_eq_true, decide_eq_true_eq] at plain
  exact plain.1.1.1.1.1

theorem reduceNot_eq_some {items : List Cond} {c : Cond} (h : reduceNot items = .ok (some c)) :
    items = [.not [c]] ∨ (∃ f fs, items = [.isNull (f :: fs)] ∧ c = notNullTest f) ∨
      ∃ f fs, items = [.notNull (f :: fs)] ∧ c = nullTest f := by
  unfold reduceNot at h
  split at h <;> cases h
  · exact .inl rfl
  · exact .inr (.inl ⟨_, _, rfl, rfl⟩)
  · exact .inr (.inr ⟨_, _, rfl, rfl⟩)

/-! ## Each rule makes the tree lighter -/

theorem weights_distinctFrom (seen items : List Cond) :
    weights (distinctFrom seen items) + (items.length - (distinctFrom seen items).length) ≤
      weights items := by
  induction items generalizing seen with
  | nil => simp [distinctFrom, weights]
  | cons c rest ih =>
    have hc := weight_pos c
    unfold distinctFrom
    split
    · have := ih seen
      have := length_distinctFrom_le seen rest
      simp only [weights, List.length_cons]
      omega
    · have := ih (c :: seen)
      simp only [weights, List.length_cons]
      omega

theorem weights_splice_le (j : Junction) (c : Cond) : weights (splice j c) ≤ c.weight := by
  unfold splice
  split
  · rename_i o items h
    cases j <;> cases c <;> simp only [Junction.parts?, Option.some.injEq, Prod.mk.injEq,
      reduceCtorEq] at h
    · rename_i o' items'
      obtain ⟨-, rfl⟩ := h
      cases o' <;> simp only [weight] <;> omega
    · obtain ⟨-, rfl⟩ := h
      simp only [weight]
      omega
  · simp [weights]

theorem weights_splice_lt {j : Junction} {c : Cond} (h : (j.parts? c).isSome) :
    weights (splice j c) < c.weight := by
  obtain ⟨⟨o, items⟩, parts⟩ := Option.isSome_iff_exists.mp h
  clear h
  unfold splice
  rw [parts]
  cases j <;> cases c <;> simp only [Junction.parts?, Option.some.injEq, Prod.mk.injEq,
    reduceCtorEq] at parts
  · rename_i o' items'
    obtain ⟨-, rfl⟩ := parts
    cases o' <;> simp only [weight] <;> omega
  · obtain ⟨-, rfl⟩ := parts
    simp only [weight]
    omega

theorem weights_flatMap_splice_le (j : Junction) (items : List Cond) :
    weights (items.flatMap (splice j)) ≤ weights items := by
  induction items with
  | nil => simp [weights]
  | cons c rest ih =>
    have := weights_splice_le j c
    rw [List.flatMap_cons, weights_append]
    simp only [weights]
    omega

theorem weights_flattened?_lt {j : Junction} {items merged : List Cond}
    (h : flattened? j items = some merged) : weights merged < weights items := by
  unfold flattened? at h
  split at h
  · rename_i test
    obtain rfl := Option.some.inj h
    rw [Bool.and_eq_true] at test
    have some_junction := test.1
    clear test h
    induction items with
    | nil => simp at some_junction
    | cons c rest ih =>
      rw [List.flatMap_cons, weights_append]
      simp only [weights]
      rw [List.any_cons, Bool.or_eq_true] at some_junction
      rcases some_junction with here | later
      · have := weights_splice_lt here
        have := weights_flatMap_splice_le j rest
        omega
      · have := weights_splice_le j c
        have := ih later
        omega
  · exact absurd h (by simp)

/-- A node that is the same as one that is no token and not absent weighs three or more. -/
theorem three_le_weight_of_same {c x : Cond} (h : c.same x = true) (present : c.isAbsent = false) :
    3 ≤ x.weight := by
  cases x with
  | absent => cases c <;> simp_all [same, isAbsent]
  | all o items => cases o with
    | none => cases c <;> simp [same] at h
    | some k => simp only [weight]; omega
  | any items => cases c <;> simp [same] at h
  | _ => simp only [weight]; omega

theorem weights_eraseSame? {c : Cond} {items rest : List Cond}
    (h : eraseSame? c items = some rest) :
    weights rest + (if c.isAbsent then 1 else 3) ≤ weights items := by
  obtain ⟨before, x, after, same, rfl, rfl⟩ := eraseSame?_eq_some h
  simp only [weights_append, weights]
  split
  · have := weight_pos x
    omega
  · rename_i present
    have := three_le_weight_of_same same (by simpa using present)
    omega

theorem weights_eraseEach {cs items rest : List Cond} (h : eraseEach cs items = .ok rest) :
    weights rest + 3 * (cs.filter fun c => !c.isAbsent).length ≤ weights items := by
  induction cs generalizing items with
  | nil =>
    simp only [eraseEach, Except.ok.injEq] at h
    simp [h]
  | cons c cs ih =>
    obtain ⟨left, erased, h⟩ := eraseEach_cons_eq_ok h
    have step := weights_eraseSame? erased
    have others := ih h
    rw [List.filter_cons]
    cases absent : c.isAbsent with
    | true =>
      simp only [absent, Bool.not_true, if_true] at step ⊢
      simp only [Bool.false_eq_true, if_false]
      omega
    | false =>
      simp only [absent, Bool.not_false, if_true, Bool.false_eq_true, if_false,
        List.length_cons] at step ⊢
      omega

/-- The weight of the branches of a junction, put together. -/
theorem weights_eraseFromBranches {j : Junction} {shared : List Cond}
    {branches left : List (Option Nat × List Cond)}
    (h : eraseFromBranches shared branches = .ok left) :
    weights (left.map (branch j)) +
      3 * (shared.filter fun c => !c.isAbsent).length * branches.length ≤
        weights (branches.map (branch j)) := by
  induction branches generalizing left with
  | nil =>
    simp only [eraseFromBranches, Except.ok.injEq] at h
    simp [← h, weights]
  | cons b rest ih =>
    obtain ⟨o, items⟩ := b
    obtain ⟨own, others, erased, erasedRest, rfl⟩ := eraseFromBranches_cons_eq_ok h
    have hb := weights_eraseEach erased
    have hrest := ih erasedRest
    simp only [List.map_cons, weights, branch, weight_build, List.length_cons, Nat.mul_add,
      Nat.mul_one] at hrest ⊢
    omega

theorem branches?_map_branch {j : Junction} {items : List Cond}
    {bs : List (Option Nat × List Cond)} (h : branches? j items = some bs) :
    items = bs.map (branch j) := by
  induction items generalizing bs with
  | nil =>
    simp only [branches?, Option.some.injEq] at h
    simp [← h]
  | cons c rest ih =>
    unfold branches? at h
    split at h
    · rename_i b bs' parts more
      obtain rfl := Option.some.inj h
      rw [List.map_cons, ← ih more]
      congr 1
      cases j <;> cases c <;> simp only [Junction.dual, Junction.parts?, Option.some.injEq,
        reduceCtorEq] at parts
      · subst parts; rfl
      · subst parts; rfl
    · exact absurd h (by simp)

theorem weights_filter_split (p : Cond → Bool) (xs : List Cond) :
    weights (xs.filter p) + weights (xs.filter fun c => !p c) = weights xs := by
  induction xs with
  | nil => simp [weights]
  | cons x xs ih =>
    rw [List.filter_cons, List.filter_cons]
    cases h : p x <;> simp [weights] <;> omega

theorem length_le_weights (xs : List Cond) : xs.length ≤ weights xs := by
  induction xs with
  | nil => simp [weights]
  | cons x xs ih =>
    have := weight_pos x
    simp only [weights, List.length_cons]
    omega

theorem weight_factored {j : Junction} {o : Option Nat} {items : List Cond} {c : Cond}
    (two : 2 ≤ items.length) (h : factored j o items = .ok (some c)) :
    c.weight < (j.build o items).weight := by
  unfold factored at h
  split at h
  · exact absurd h (by simp)
  · exact absurd h (by simp)
  · rename_i o₁ first rest found
    obtain rfl := branches?_map_branch found
    have nonempty : 1 ≤ rest.length := by simp at two; omega
    split at h
    · exact absurd h (by simp)
    · dsimp only at h
      split at h
      · exact absurd h (by simp)
      · rename_i someShared
        split at h
        · exact absurd h (by simp)
        · rename_i others erased
          have lighter := weights_eraseFromBranches (j := j) erased
          have parts := weights_filter_split (fun c => rest.all fun b => memberOf c b.2) first
          split at h
          · obtain rfl := Option.some.inj (Except.ok.inj h)
            have := length_le_weights
              (first.filter fun c => rest.all fun b => memberOf c b.2)
            have : (first.filter fun c => rest.all fun b => memberOf c b.2).length ≠ 0 := by
              simpa using someShared
            simp only [weight_build, List.map_cons, weights, branch] at *
            omega
          · rename_i someKept
            obtain rfl := Option.some.inj (Except.ok.inj h)
            have fewer := weights_filter_le (fun c => !c.isAbsent)
              (first.filter fun c => rest.all fun b => memberOf c b.2)
            have kept : 1 ≤ ((first.filter fun c => rest.all fun b => memberOf c b.2).filter
                fun c => !c.isAbsent).length := by
              rcases Nat.eq_zero_or_pos ((first.filter fun c =>
                rest.all fun b => memberOf c b.2).filter fun c => !c.isAbsent).length with z | p
              · exact absurd (List.isEmpty_iff_length_eq_zero.mpr z) someKept
              · exact p
            have base : junctionWeight j.dual none = 2 := by cases j <;> rfl
            have times : 1 * 1 ≤ ((first.filter fun c =>
                rest.all fun b => memberOf c b.2).filter fun c => !c.isAbsent).length *
                  rest.length := Nat.mul_le_mul kept nonempty
            rw [Nat.mul_assoc] at lighter
            simp only [weight_build, List.map_cons, weights, branch, weights_append, base] at *
            omega

theorem weight_reduceJunction {j : Junction} {o : Option Nat} {items : List Cond} {c : Cond}
    (h : reduceJunction j o items = .ok (some c)) :
    c.weight < (j.build o items).weight := by
  have base := two_le_junctionWeight j o
  have step := reduceJunction_step j o items
  rw [h] at step
  cases step with
  | empty nothing =>
    simp only [weight_build, weight]
    omega
  | present known =>
    have parts := weights_filter_split isAbsent items
    have : (items.filter isAbsent).length ≠ 0 := by
      intro none
      rw [List.length_eq_zero_iff, List.filter_eq_nil_iff] at none
      obtain ⟨x, member, absent⟩ := List.any_eq_true.mp known
      exact none x member absent
    have := length_le_weights (items.filter isAbsent)
    simp only [weight_build]
    omega
  | single only =>
    simp only [only, weight_build, weights]
    omega
  | distinct shorter =>
    have := weights_distinctFrom [] items
    simp only [weight_build, distinct] at *
    omega
  | flattened flat =>
    have := weights_flattened?_lt flat
    simp only [weight_build]
    omega
  | plain plain found => exact weight_factored (two_le_of_isPlainJunction plain) found

theorem weight_reduceNot {items : List Cond} {c : Cond} (h : reduceNot items = .ok (some c)) :
    c.weight < (Cond.not items).weight := by
  rcases reduceNot_eq_some h with rfl | ⟨f, fs, rfl, rfl⟩ | ⟨f, fs, rfl, rfl⟩
  · simp only [weight, weights]
    omega
  · cases f <;> simp only [notNullTest, weight, weights] <;> omega
  · cases f <;> simp only [nullTest, weight, weights] <;> omega

/-- A reduction step makes the tree lighter. -/
theorem weight_reduce? {t c : Cond} (h : reduce? t = .ok (some c)) : c.weight < t.weight := by
  cases t with
  | all o items => exact weight_reduceJunction (j := .conj) h
  | any items => exact weight_reduceJunction (j := .disj) (o := none) h
  | not items => exact weight_reduceNot h
  | _ => simp [reduce?] at h

/-! ## Passes -/

def operands : Cond → List Cond
  | .all _ items => items
  | .any items => items
  | .not items => items
  | _ => []

def withOperands : Cond → List Cond → Cond
  | .all o _, items => .all o items
  | .any _, items => .any items
  | .not _, items => .not items
  | c, _ => c

theorem weights_operands_lt (t : Cond) : weights t.operands < t.weight := by
  cases t with
  | all o items => cases o <;> simp only [operands, weight] <;> omega
  | _ => simp only [operands, weight, weights] <;> omega

theorem weight_withOperands (t : Cond) (items : List Cond) :
    (t.withOperands items).weight + weights t.operands ≤ t.weight + weights items := by
  cases t with
  | all o old => cases o <;> simp only [withOperands, operands, weight] <;> omega
  | _ => simp only [withOperands, operands, weight, weights] <;> omega

theorem weights_remaining_le (source : Nat) (ls : List Loss) (items : List Cond) :
    weights (remaining source ls items) ≤ weights items := by
  induction ls generalizing items with
  | nil => exact Nat.le_refl _
  | cons l ls ih =>
    rw [remaining]
    refine Nat.le_trans (ih _) ?_
    split
    · cases erased : eraseSame? l.item items with
      | none => exact Nat.le_refl _
      | some rest =>
        have := weights_eraseSame? erased
        exact Nat.le_trans (Nat.le_add_right _ _) this
    · exact Nat.le_refl _

mutual

theorem weight_lose_le (ls : List Loss) (c : Cond) : (c.lose ls).weight ≤ c.weight := by
  match c with
  | .all (some source) items =>
    have h₁ := weights_loseAll_le ls items
    have h₂ := weights_remaining_le source ls (loseAll ls items)
    simp only [lose, weight]
    omega
  | .all none items | .any items | .not items | .isNull items | .notNull items | .seq items =>
    have := weights_loseAll_le ls items
    simp only [lose, weight]
    omega
  | .group inner =>
    have := weight_lose_le ls inner
    simp only [lose, weight]
    omega
  | .absent | .item _ _ | .value _ | .token _ => exact Nat.le_refl _

theorem weights_loseAll_le (ls : List Loss) (cs : List Cond) :
    weights (loseAll ls cs) ≤ weights cs := by
  match cs with
  | [] => exact Nat.le_refl _
  | c :: rest =>
    have h₁ := weight_lose_le ls c
    have h₂ := weights_loseAll_le ls rest
    simp only [loseAll, weights]
    omega

end

theorem weight_after_le (ls : List Loss) (c : Cond) : (c.after ls).weight ≤ c.weight := by
  cases ls with
  | nil => exact Nat.le_refl _
  | cons l ls => exact weight_lose_le (l :: ls) c

theorem weights_map_after_le (ls : List Loss) (cs : List Cond) :
    weights (cs.map (after ls)) ≤ weights cs := by
  induction cs with
  | nil => exact Nat.le_refl _
  | cons c rest ih =>
    have := weight_after_le ls c
    simp only [List.map_cons, weights]
    omega

mutual

/-- One pass over the tree, and whether a rule was applied. The losses so far are given and those
after the pass returned. -/
def pass (ls : List Loss) (t : Cond) : Except Fault (Cond × Bool) × List Loss :=
  match _found : reduce? t with
  | .error e => (.error e, ls ++ losses t)
  | .ok (some c) => match pass (ls ++ losses t) (c.after (ls ++ losses t)) with
    | (.error e, ls) => (.error e, ls)
    | (.ok (result, _), ls) => (.ok (result, true), ls)
  | .ok none => match passAll ls t.operands with
    | (.error e, ls) => (.error e, ls)
    | (.ok (items, changed), ls) => (.ok (t.withOperands items, changed), ls)
termination_by 2 * t.weight
decreasing_by
  · have := weight_reduce? _found
    have := weight_after_le (ls ++ losses t) c
    omega
  · have := weights_operands_lt t
    omega

def passAll (ls : List Loss) (ts : List Cond) : Except Fault (List Cond × Bool) × List Loss :=
  match ts with
  | [] => (.ok ([], false), ls)
  | t :: rest => match pass ls t with
    | (.error e, ls) => (.error e, ls)
    | (.ok (c, changed), ls) => match passAll ls (rest.map (after ls)) with
      | (.error e, ls) => (.error e, ls)
      | (.ok (cs, more), ls) => (.ok (c.after ls :: cs, changed || more), ls)
termination_by 2 * weights ts + 1
decreasing_by
  · simp only [weights]
    omega
  · have := weight_pos t
    have := weights_map_after_le ls rest
    simp only [weights]
    omega

end

/-- What a pass over a tree does: it takes a step and passes over the result, or it goes on to the
operands. -/
theorem pass_cases {ls gone : List Loss} {t c : Cond} {changed : Bool}
    (h : pass ls t = (.ok (c, changed), gone)) :
    (∃ d inner, reduce? t = .ok (some d) ∧ changed = true ∧
      pass (ls ++ losses t) (d.after (ls ++ losses t)) = (.ok (c, inner), gone)) ∨
    ∃ items, reduce? t = .ok none ∧ passAll ls t.operands = (.ok (items, changed), gone) ∧
      c = t.withOperands items := by
  unfold pass at h
  split at h
  · cases h
  · rename_i d step
    split at h
    · cases h
    · rename_i result inner later deeper
      cases h
      exact .inl ⟨d, inner, step, rfl, deeper⟩
  · rename_i stuck
    split at h
    · cases h
    · rename_i items more later below
      cases h
      exact .inr ⟨items, stuck, below, rfl⟩

/-- A row is passed over tree by tree, and what is lost on the way is lost everywhere. -/
theorem passAll_cons_cases {ls gone : List Loss} {t : Cond} {rest cs : List Cond} {changed : Bool}
    (h : passAll ls (t :: rest) = (.ok (cs, changed), gone)) :
    ∃ c first sooner others more, pass ls t = (.ok (c, first), sooner) ∧
      passAll sooner (rest.map (after sooner)) = (.ok (others, more), gone) ∧
      cs = c.after gone :: others ∧ changed = (first || more) := by
  unfold passAll at h
  split at h
  · cases h
  · rename_i c first sooner here
    split at h
    · cases h
    · rename_i others more later there
      cases h
      exact ⟨c, first, sooner, others, more, here, there, rfl, rfl⟩

mutual

/-- A pass makes the tree no heavier, and lighter if it changes something. -/
theorem weight_pass (ls : List Loss) (t : Cond) {c : Cond} {changed : Bool} {gone : List Loss}
    (h : pass ls t = (.ok (c, changed), gone)) :
    c.weight + (if changed then 1 else 0) ≤ t.weight := by
  rcases pass_cases h with ⟨d, inner, step, rfl, deeper⟩ | ⟨items, -, below, rfl⟩
  · have lighter := weight_reduce? step
    have lost := weight_after_le (ls ++ losses t) d
    have := weight_pass _ _ deeper
    simp only [if_true]
    omega
  · have lighter := weights_operands_lt t
    have := weights_passAll ls t.operands below
    have := weight_withOperands t items
    omega
termination_by 2 * t.weight
decreasing_by all_goals omega

theorem weights_passAll (ls : List Loss) (ts : List Cond) {cs : List Cond} {changed : Bool}
    {gone : List Loss} (h : passAll ls ts = (.ok (cs, changed), gone)) :
    weights cs + (if changed then 1 else 0) ≤ weights ts := by
  match ts, h with
  | [], h =>
    simp only [passAll, Prod.mk.injEq, Except.ok.injEq] at h
    obtain ⟨⟨rfl, rfl⟩, rfl⟩ := h
    simp [weights]
  | t :: rest, h =>
    obtain ⟨c, first, sooner, others, more, here, there, rfl, rfl⟩ := passAll_cons_cases h
    have sum := weights_cons t rest
    have pos := weight_pos t
    have lighter := weights_map_after_le sooner rest
    have h₁ := weight_pass ls t here
    have h₂ := weights_passAll sooner (rest.map (after sooner)) there
    have h₃ := weight_after_le gone c
    simp only [weights]
    cases first <;> cases more <;> simp at h₁ h₂ ⊢ <;> omega
termination_by 2 * weights ts + 1
decreasing_by all_goals omega

end

def settle (ls : List Loss) (t : Cond) : Except Fault Cond × List Loss :=
  match _found : pass ls t with
  | (.error e, ls) => (.error e, ls)
  | (.ok (c, false), ls) => (.ok c, ls)
  | (.ok (c, true), ls) => settle ls c
termination_by t.weight
decreasing_by
  have := weight_pass _ t _found
  simp only [if_true] at this
  omega

/-! ## Brackets -/

mutual

/-- The tree without brackets, except under a negation. A bracket around a bare list is not
allowed. -/
def strip : Cond → Except Fault Cond
  | .group (.seq _) => .error .broken
  | .group (.value (.list _)) => .error .broken
  | .group inner => strip inner
  | .all o items => (stripAll items).map (.all o)
  | .any items => (stripAll items).map .any
  | .isNull items => (stripAll items).map .isNull
  | .notNull items => (stripAll items).map .notNull
  | .value (.map _) => .error .wrongType
  | c => .ok c

def stripAll : List Cond → Except Fault (List Cond)
  | [] => .ok []
  | c :: rest => match strip c with
    | .error e => .error e
    | .ok d => (stripAll rest).map (d :: ·)

end

mutual

/-- The tree with a bracket around each junction that is not under a negation. -/
def bracket : Cond → Cond
  | .all o items => .group (.all o (bracketAll items))
  | .any items => .group (.any (bracketAll items))
  | c => c

def bracketAll : List Cond → List Cond
  | [] => []
  | c :: rest => bracket c :: bracketAll rest

end

/-- The simplified tree, and what the conjunctions of log sources lost. -/
def simplified (t : Cond) : Except Fault Cond × List Loss :=
  match strip t with
  | .error e => (.error e, [])
  | .ok bare => match settle [] bare with
    | (result, ls) => (result.map bracket, ls)

def simplify (t : Cond) : Except Fault Cond :=
  t.simplified.1

end Cond

end SigmaQuery
