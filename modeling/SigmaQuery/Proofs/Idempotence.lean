import SigmaQuery.Proofs.NormalForm
import SigmaQuery.Proofs.Rewriting

/-!
# Simplifying twice

A search is simplified as a whole after its groups have been simplified by themselves, so trees are
simplified that have been before. This changes nothing if each negation has its operand in brackets, as
the negations of a search have.

Three facts come together. Brackets that are put on are taken off again, and no others are there. The
passes end with a tree in which no rule applies. And a negation with its operand in brackets is left
alone by the brackets and by the passes. Without the last fact this fails: of two negations around a
bracket the bracket is left, and only the next simplification takes it off.
-/

namespace SigmaQuery

open List

namespace Cond

/-! ## Negations of brackets -/

/-- The node is a condition in brackets. -/
def isGroup : Cond → Bool
  | .group _ => true
  | _ => false

mutual

/-- Every negation in the tree, up to those below a negation, has its operands in brackets. -/
def negatesGroups : Cond → Bool
  | .all _ items => negatesGroupsAll items
  | .any items => negatesGroupsAll items
  | .not items => items.all isGroup
  | .group inner => negatesGroups inner
  | _ => true

/-- The same for several trees. -/
def negatesGroupsAll : List Cond → Bool
  | [] => true
  | c :: rest => negatesGroups c && negatesGroupsAll rest

end

theorem negatesGroupsAll_iff (items : List Cond) :
    negatesGroupsAll items = true ↔ ∀ c ∈ items, c.negatesGroups = true :=
  each_iff (negatesGroupsAll · = true) rfl (fun _ _ => Bool.and_eq_true_iff) items

theorem negatesGroups_build (j : Junction) (o : Option Nat) (items : List Cond) :
    (j.build o items).negatesGroups = true ↔ ∀ c ∈ items, c.negatesGroups = true := by
  rw [← negatesGroupsAll_iff]
  cases j <;> rfl

theorem nodewise_negatesGroups :
    Nodewise fun t bare => t.negatesGroups = true → bare.negatesGroups = true where
  group h := h
  junction j {o items ds} h whole := by
    rw [negatesGroups_build] at whole ⊢
    exact forall_of_forall₂ h whole
  isNull _ _ := rfl
  notNull _ _ := rfl
  same _ := id

variable {c : Cond}

theorem reduceNot_of_groups {items : List Cond} (groups : items.all isGroup = true) :
    reduceNot items ≠ .ok (some c) := by
  intro step
  unfold reduceNot at step
  split at step <;> cases step
  all_goals cases groups

/-! ## Taking brackets off twice -/

theorem strip_group {inner bare : Cond} (h : (Cond.group inner).strip = .ok bare) :
    inner.strip = .ok bare := by
  unfold strip at h
  split at h
  · cases h
  · cases h
  all_goals simp_all

theorem stripAll_cons {rest ds : List Cond} (h : stripAll (c :: rest) = .ok ds) :
    ∃ d more, c.strip = .ok d ∧ stripAll rest = .ok more ∧ ds = d :: more := by
  unfold stripAll at h
  split at h
  · cases h
  · rename_i d stripped
    obtain ⟨more, others, rfl⟩ := map_eq_ok h
    exact ⟨d, more, stripped, others, rfl⟩

theorem strip_build (j : Junction) (o : Option Nat) (items : List Cond) :
    (j.build o items).strip = (stripAll items).map (j.build o) := by
  cases j <;> rfl

theorem stripAll_eq_self_iff (items : List Cond) :
    stripAll items = .ok items ↔ ∀ c ∈ items, c.strip = .ok c := by
  induction items with
  | nil => simp [stripAll]
  | cons c rest ih =>
    rw [forall_mem_cons, ← ih]
    constructor
    · intro h
      obtain ⟨d, more, here, others, same⟩ := stripAll_cons h
      obtain ⟨rfl, rfl⟩ := List.cons.inj same
      exact ⟨here, others⟩
    · rintro ⟨here, others⟩
      rw [stripAll, here, others]
      rfl

theorem strip_build_eq_self_iff (j : Junction) (o : Option Nat) (items : List Cond) :
    (j.build o items).strip = .ok (j.build o items) ↔ ∀ c ∈ items, c.strip = .ok c := by
  rw [← stripAll_eq_self_iff, strip_build]
  constructor
  · intro h
    obtain ⟨ds, stripped, same⟩ := map_eq_ok h
    have equal : ds = items := by cases j <;> simpa [Junction.build] using same
    rwa [equal] at stripped
  · intro h
    rw [h]
    rfl

mutual

theorem strip_strip {t bare : Cond} (h : t.strip = .ok bare) : bare.strip = .ok bare := by
  match t, h with
  | .group inner, h => exact strip_strip (strip_group h)
  | .all o items, h =>
    obtain ⟨ds, stripped, rfl⟩ := map_eq_ok h
    have parts := (stripAll_eq_self_iff ds).mp (stripAll_stripAll stripped)
    exact (strip_build_eq_self_iff .conj o ds).mpr parts
  | .any items, h =>
    obtain ⟨ds, stripped, rfl⟩ := map_eq_ok h
    have parts := (stripAll_eq_self_iff ds).mp (stripAll_stripAll stripped)
    exact (strip_build_eq_self_iff .disj none ds).mpr parts
  | .isNull items, h | .notNull items, h =>
    obtain ⟨ds, stripped, rfl⟩ := map_eq_ok h
    rw [strip, stripAll_stripAll stripped]
    rfl
  | .value x, h =>
    have unchanged : bare = .value x := by cases x <;> simp_all [strip]
    rw [unchanged] at h ⊢
    exact h
  | .absent, h | .not items, h | .seq items, h | .item f x, h | .token t, h =>
    obtain rfl := Except.ok.inj h
    rfl

theorem stripAll_stripAll {items ds : List Cond} (h : stripAll items = .ok ds) :
    stripAll ds = .ok ds := by
  match items, h with
  | [], h =>
    obtain rfl := Except.ok.inj h
    rfl
  | c :: rest, h =>
    obtain ⟨d, more, here, others, rfl⟩ := stripAll_cons h
    rw [stripAll, strip_strip here, stripAll_stripAll others]
    rfl

end

theorem stripAll_of_forall₂ {items ds : List Cond}
    (h : Forall₂ (fun c d => c.strip = .ok c → d.strip = .ok c) items ds)
    (bare : ∀ c ∈ items, c.strip = .ok c) : stripAll ds = .ok items := by
  induction h with
  | nil => rfl
  | cons first _ ih =>
    obtain ⟨here, others⟩ := forall_mem_cons.mp bare
    rw [stripAll, first here, ih others]
    rfl

theorem bracketwise_strip : Bracketwise fun c d => c.strip = .ok c → d.strip = .ok c where
  junction j {o items ds} each bare := by
    have row := stripAll_of_forall₂ each ((strip_build_eq_self_iff j o items).mp bare)
    cases j <;> exact congrArg (Except.map _) row
  same _ := id

theorem strip_bracket (bare : c.strip = .ok c) : c.bracket.strip = .ok c :=
  bracketwise_strip.bracket c bare

/-! ## Passes over trees without brackets -/

/-- The tree has no brackets up to its negations, and these have their operands in brackets. -/
structure Stripped (c : Cond) : Prop where
  strip_eq : c.strip = .ok c
  negations : c.negatesGroups = true

theorem stripped_build_iff (j : Junction) (o : Option Nat) (items : List Cond) :
    (j.build o items).Stripped ↔ ∀ c ∈ items, c.Stripped := by
  constructor
  · rintro ⟨strip_eq, negations⟩ c member
    exact ⟨(strip_build_eq_self_iff j o items).mp strip_eq c member,
      (negatesGroups_build j o items).mp negations c member⟩
  · intro parts
    exact ⟨(strip_build_eq_self_iff j o items).mpr fun c member => (parts c member).strip_eq,
      (negatesGroups_build j o items).mpr fun c member => (parts c member).negations⟩

theorem hereditary_stripped : Hereditary Stripped where
  absent := ⟨rfl, rfl⟩
  operand h := (stripped_build_iff _ _ _).mp h
  rebuild _ parts := (stripped_build_iff _ _ _).mpr parts
  junction j _ parts := (stripped_build_iff j none _).mpr parts
  negations h step := absurd step (reduceNot_of_groups h.negations)

theorem eq_of_forall₂_groups {ts cs : List Cond}
    (each : Forall₂ (fun t c => t.isGroup = true → c = t) ts cs) (groups : ts.all isGroup = true) :
    cs = ts := by
  induction each with
  | nil => rfl
  | cons here _ ih =>
    rw [all_cons, Bool.and_eq_true] at groups
    rw [here groups.1, ih groups.2]

/-- The operands of a negation are not stripped, but they are in brackets, and what is in brackets is
left as it is. -/
theorem stepwise_stripped : Stepwise (fun _ => True) (fun _ => True)
    fun t c => (t.Stripped → c.Stripped) ∧ (t.isGroup = true → c = t) where
  reduced _ _ := trivial
  operand _ _ := trivial
  step {t d c} _ _ step later := by
    refine ⟨fun whole => later.1 (hereditary_stripped.reduce? step whole), fun group => ?_⟩
    cases t with
    | group inner => cases step
    | _ => cases group
  rebuild {t xs} _ each := by
    have stripped : (∀ x ∈ t.operands, x.Stripped) → ∀ x ∈ xs, x.Stripped :=
      forall_of_forall₂ (each.imp fun _ _ h => h.1)
    cases t with
    | all o items =>
      exact ⟨fun whole => (stripped_build_iff .conj o xs).mpr
        (stripped ((stripped_build_iff .conj o items).mp whole)), nofun⟩
    | any items =>
      exact ⟨fun whole => (stripped_build_iff .disj none xs).mpr
        (stripped ((stripped_build_iff .disj none items).mp whole)), nofun⟩
    | not items =>
      refine ⟨fun whole => ?_, nofun⟩
      have same : xs = items := eq_of_forall₂_groups (each.imp fun _ _ h => h.2) whole.negations
      rw [withOperands, same]
      exact whole
    | _ => exact ⟨id, fun _ => rfl⟩

theorem Settles.stripped {t : Cond} {steps : List Step} (h : Settles t steps c) (whole : t.Stripped) :
    c.Stripped :=
  (stepwise_stripped.settles (fun _ _ => trivial) (fun first later =>
    ⟨fun whole => later.1 (first.1 whole), fun group => by
      rw [later.2 (first.2 group ▸ group), first.2 group]⟩) h trivial fun _ _ => trivial).1 whole

/-- **A simplified tree is simplified to itself**, if each negation of the tree has its operand in
brackets. -/
theorem simplify_simplify {t u : Cond} (tree : t.unshared = true) (negations : t.negatesGroups = true)
    (h : t.simplify = .ok u) : u.simplify = .ok u := by
  obtain ⟨steps, bare, c, stripped, settles, rfl⟩ := (simplify_eq_ok_iff tree).mp h
  have bareTree := nodewise_unshared.strip stripped tree
  have whole : c.Stripped :=
    settles.stripped ⟨strip_strip stripped, nodewise_negatesGroups.strip stripped negations⟩
  -- the second run is the last pass of the first one
  have last := passes_of_stuck [c] (List.forall_mem_singleton.mpr settles.stuck)
  have settled : c.bracket.unshared = true := by
    rw [unshared_bracket]
    exact settles.unshared bareTree
  exact (simplify_eq_ok_iff settled).mpr ⟨[], c, c, strip_bracket whole.strip_eq, .done last, rfl⟩

/-- A repeated item beside the negation of a bracket around a single item. -/
def negatedGroup : Cond :=
  .any [.group (.any [.item "a" "1", .item "a" "1"]), .not [.group (.any [.item "b" "2"])]]

/-- The repeated item is left out, and what is in the bracket below the negation stays as it is, also
when the result is simplified once more. -/
theorem simplify_simplify_negatedGroup :
    negatedGroup.unshared = true ∧ negatedGroup.negatesGroups = true ∧
    negatedGroup.simplify =
      .ok (.group (.any [.item "a" "1", .not [.group (.any [.item "b" "2"])]])) ∧
    (Cond.group (.any [.item "a" "1", .not [.group (.any [.item "b" "2"])]])).simplify =
      .ok (.group (.any [.item "a" "1", .not [.group (.any [.item "b" "2"])]])) := by
  have h : negatedGroup.simplify =
      .ok (.group (.any [.item "a" "1", .not [.group (.any [.item "b" "2"])]])) := by decide +kernel
  exact ⟨rfl, rfl, h, simplify_simplify rfl rfl h⟩

end Cond

end SigmaQuery
