import SigmaQuery.Proofs.Atoms
import SigmaQuery.Proofs.ConfigFootprint
import SigmaQuery.Proofs.LogSourceMerging

/-!
# The fields that a mapping stands for

A field of a rule is searched for a value, or tested for being empty. Both go through the mapping of the
field, but in different ways. A search takes the targets of the conditions that the rule meets, then the
default, then the field itself. A test never looks at the conditions: it takes the default, even one that
is used up, or the field itself.
-/

namespace SigmaQuery

open FaultM List

/-! ## Sets of fields -/

/-- The two lists are the same set of fields. Numbers that are equal are one field. -/
def SameFields (xs ys : List Value) : Prop :=
  ∀ f, f ∈ xs.map Value.canonicalScalar ↔ f ∈ ys.map Value.canonicalScalar

namespace SameFields

variable {xs ys zs : List Value}

theorem refl (xs : List Value) : SameFields xs xs :=
  fun _ => Iff.rfl

theorem symm (h : SameFields xs ys) : SameFields ys xs :=
  fun f => (h f).symm

theorem trans (h : SameFields xs ys) (h' : SameFields ys zs) : SameFields xs zs :=
  fun f => (h f).trans (h' f)

theorem congr_right (h : SameFields ys zs) : SameFields xs ys ↔ SameFields xs zs :=
  ⟨fun left => left.trans h, fun left => left.trans h.symm⟩

theorem eq_nil (h : SameFields [] ys) : ys = [] := by
  rw [← map_eq_nil_iff, eq_nil_iff_forall_not_mem]
  intro f member
  cases (h f).mpr member

theorem eq_nil_iff (h : SameFields xs ys) : xs = [] ↔ ys = [] := by
  constructor
  · rintro rfl
    exact h.eq_nil
  · rintro rfl
    exact h.symm.eq_nil

end SameFields

open SameFields

variable {v : Value}

theorem Value.memberOf_iff {seen : List Value} (sets : ∀ w ∈ seen, w.hashable = true) :
    v.memberOf seen = true ↔ v.canonicalScalar ∈ seen.map canonicalScalar := by
  rw [memberOf, any_eq_true, mem_map]
  constructor
  · rintro ⟨w, member, same⟩
    exact ⟨w, member, ((same_iff_of_hashable (sets w member)).mp same).symm⟩
  · rintro ⟨w, member, same⟩
    exact ⟨w, member, (same_iff_of_hashable (sets w member)).mpr same.symm⟩

theorem Value.canonicalScalar_eq_null : v.canonicalScalar = .null ↔ v = .null := by
  cases v <;> simp [canonicalScalar]

namespace FieldMapping

variable {targets : List Value}

theorem sameFields_foldl (seen : List Value)
    (sets : ∀ t ∈ targets, t.hashable = true) (before : ∀ t ∈ seen, t.hashable = true) :
    SameFields (targets.foldl (fun seen t => if t.memberOf seen then seen else seen ++ [t]) seen)
      (seen ++ targets) := by
  induction targets generalizing seen with
  | nil =>
    rw [append_nil]
    exact refl seen
  | cons t rest ih =>
    obtain ⟨here, there⟩ := forall_mem_cons.mp sets
    rw [foldl_cons]
    by_cases known : t.memberOf seen = true
    · rw [if_pos known]
      refine (ih seen there before).trans fun f => ?_
      have old := (Value.memberOf_iff before).mp known
      simp only [map_append, map_cons, mem_append, mem_cons]
      constructor
      · rintro (earlier | later)
        · exact .inl earlier
        · exact .inr (.inr later)
      · rintro (earlier | rfl | later)
        · exact .inl earlier
        · exact .inl old
        · exact .inr later
    · rw [if_neg known, append_cons seen t rest]
      refine ih (seen ++ [t]) there fun x member => ?_
      rcases mem_append.mp member with earlier | new
      · exact before x earlier
      · exact mem_singleton.mp new ▸ here

theorem sameFields_targetSet (sets : ∀ t ∈ targets, t.hashable = true) :
    SameFields (targetSet targets) targets := by
  unfold targetSet
  simp only
  split
  · rename_i texts
    intro f
    conv_rhs => rw [← LogSource.map_text_filterMap texts]
    simp [mem_sortedSet]
  · exact sameFields_foldl [] sets (by simp)

end FieldMapping

/-! ## Fields of a tree -/

namespace Cond

/-- The field that an atom compares with a value. -/
def Atom.compared? : Atom → Option Value
  | .item f _ => some f
  | _ => none

/-- The field that an atom tests for being empty. -/
def Atom.tested? : Atom → Option Value
  | .field f => some f
  | _ => none

/-- The fields that conditions compare with values. -/
def comparedFields (items : List Cond) : List Value :=
  (atomsAll items).filterMap Atom.compared?

/-- The fields that conditions test for being empty. -/
def testedFields (items : List Cond) : List Value :=
  (atomsAll items).filterMap Atom.tested?

theorem testedFields_nullTests (fields : List Value) :
    testedFields (fields.map fun f => .nullTest (.ofValue f)) = fields.filter (!·.isNull) := by
  induction fields with
  | nil => rfl
  | cons f rest ih =>
    have here : (nullTest (ofValue f)).atoms.filterMap Atom.tested? = [f].filter (!·.isNull) := by
      cases f <;> rfl
    rw [testedFields] at ih ⊢
    rw [map_cons, atomsAll, filterMap_append, here, ih, ← filter_append, singleton_append]

theorem comparedFields_item (field value : Value) : comparedFields [.item field value] = [field] :=
  rfl

theorem comparedFields_anyTarget (targets : List Value) (value : Value) :
    comparedFields [FieldMapping.anyTarget targets value] = targets := by
  induction targets with
  | nil => rfl
  | cons t rest ih =>
    simp only [comparedFields, FieldMapping.anyTarget, atomsAll, atoms, map_cons, append_nil] at ih ⊢
    simp [Atom.compared?, ih]

end Cond

/-! ## Searches -/

namespace FieldMapping

/-- The fields in which a search looks for a value. Conditions that the rule meets come first, then the
default, then the field itself. -/
def valueFields (m : FieldMapping) (field : Value) (values : FieldValues) : List Value :=
  match m with
  | .simple target => [.text target]
  | .multi targets => targets
  | .conditional _ cases default =>
    if !(metTargets cases values).isEmpty then metTargets cases values
    else if !(default.getD []).isEmpty then default.getD [] else [field]

variable {cases : List MappingCase} {values : FieldValues} {m : FieldMapping}

theorem valueFields_of_met (met : metTargets cases values ≠ []) (document : Entries)
    (default : Option (List Value)) (field : Value) :
    (conditional document cases default).valueFields field values = metTargets cases values := by
  simp [valueFields, met]

theorem valueFields_of_unmet (unmet : metTargets cases values = []) (document : Entries)
    (default : Option (List Value)) (field : Value) :
    (conditional document cases default).valueFields field values =
      if !(default.getD []).isEmpty then default.getD [] else [field] := by
  simp [valueFields, unmet]

/-- The targets of the conditions that the rule meets can stand in a set. -/
def usable (m : FieldMapping) (values : FieldValues) : Bool :=
  match m with
  | .conditional _ cases _ => (metTargets cases values).all Value.hashable
  | _ => true

theorem resolve_of_not_usable {field value : Value} (h : m.usable values = false) :
    m.resolve field value values = .error .wrongType := by
  cases m with
  | simple target | multi targets => cases h
  | conditional document cases default =>
    simp only [usable] at h
    simp [resolve, h]

/-- A search compares the fields that the mapping stands for in the rule. -/
theorem resolve_fields (usable : m.usable values = true) (field value : Value) :
    ∃ t m', m.resolve field value values = .ok (t, m') ∧
      SameFields (Cond.comparedFields [t]) (m.valueFields field values) := by
  cases m with
  | simple target => exact ⟨_, _, rfl, refl _⟩
  | multi targets =>
    refine ⟨_, _, rfl, ?_⟩
    rw [Cond.comparedFields_anyTarget]
    exact refl _
  | conditional document cases default =>
    have sets : ∀ t ∈ metTargets cases values, t.hashable = true := all_eq_true.mp usable
    have same := sameFields_targetSet sets
    simp only [FieldMapping.usable] at usable
    simp only [resolve, usable]
    rcases found : targetSet (metTargets cases values) with _ | ⟨x, _ | ⟨y, more⟩⟩ <;> rw [found] at same
    · -- no condition has a target, so the default decides
      rw [valueFields_of_unmet (same.eq_nil_iff.mp rfl)]
      rcases default with _ | _ | ⟨d, _ | ⟨e, more⟩⟩
      · exact ⟨_, _, rfl, refl _⟩
      · exact ⟨_, _, rfl, refl _⟩
      · exact ⟨_, _, rfl, refl _⟩
      · refine ⟨_, _, rfl, ?_⟩
        rw [Cond.comparedFields_anyTarget]
        exact refl _
    · refine ⟨_, _, rfl, ?_⟩
      rw [Cond.comparedFields_item, valueFields_of_met (mt same.eq_nil_iff.mpr (cons_ne_nil _ _))]
      exact same
    · refine ⟨_, _, rfl, ?_⟩
      rw [Cond.comparedFields_anyTarget,
        valueFields_of_met (mt same.eq_nil_iff.mpr (cons_ne_nil _ _))]
      exact same

/-! ## Tests for being empty -/

/-- The fields that are tested in place of a field: the default stands for a conditional mapping,
whatever conditions the rule meets. -/
def nullFields (m : FieldMapping) (field : Value) : List Value :=
  match m with
  | .simple target => [.text target]
  | .multi targets => targets
  | .conditional _ _ default => default.getD [field]

/-- The field has no name under which it could be tested. -/
def nameless (m : FieldMapping) (field : Key) : Bool :=
  match m with
  | .conditional _ _ none => field.isNumber
  | _ => false

end FieldMapping

theorem nullTests_eq {c : Config} {field : Key} {m : FieldMapping}
    (mapped : c.fieldMapping field.toValue = .ok (some m)) :
    nullTests c field = if m.nameless field then .error .wrongType
      else .ok ((m.nullFields field.toValue).map fun f => .nullTest (.ofValue f)) := by
  simp only [nullTests, Config.fieldName, mapped]
  cases m with
  | simple target | multi targets => rfl
  | conditional document cases default =>
    cases default with
    | some default => rfl
    | none => cases field <;> rfl

/-! ## Fields of a definition -/

theorem fieldConditions_cons_value {k : Key} (present : v ≠ .null) (values : FieldValues)
    (rest : Entries) : fieldConditions values ((k, v) :: rest) = (do
      let test ← Config.resolve k.toValue v values
      return test :: (← fieldConditions values rest)) := by
  rw [fieldConditions]
  exact present

theorem start_fieldConditions_null (values : FieldValues) (k : Key) (c : Config) :
    (fieldConditions values [(k, .null)]).start c = (nullTests c k, c) := by
  simp only [fieldConditions, pure_bind, append_nil]
  rw [start_bind_of_ok (start_get c), start_map, start_ofExcept]
  cases nullTests c k <;> rfl

theorem start_fieldConditions_value {k : Key} (present : v ≠ .null) (values : FieldValues)
    (c : Config) : (fieldConditions values [(k, v)]).start c =
      (((Config.resolve k.toValue v values).start c).1.map ([·]),
        ((Config.resolve k.toValue v values).start c).2) := by
  rw [fieldConditions_cons_value present]
  simp only [fieldConditions, pure_bind]
  exact start_map _ _ c

theorem fieldConditions_append (values : FieldValues) (entries more : Entries) :
    fieldConditions values (entries ++ more) = (do
      let first ← fieldConditions values entries
      return first ++ (← fieldConditions values more)) := by
  induction entries with
  | nil => simp [fieldConditions]
  | cons e rest ih =>
    obtain ⟨k, v⟩ := e
    rw [cons_append]
    by_cases absent : v = .null
    · subst absent
      simp only [fieldConditions, ih, bind_assoc, pure_bind, append_assoc]
    · rw [fieldConditions_cons_value absent, fieldConditions_cons_value absent, ih]
      simp only [bind_assoc, pure_bind, cons_append]

theorem parseDefinition_field (values : FieldValues) (j : Junction) (before after : Entries) (k : Key)
    (v : Value) : parseDefinition values j (.map (before ++ (k, v) :: after)) = (do
      let first ← fieldConditions values before
      let own ← fieldConditions values [(k, v)]
      let last ← fieldConditions values after
      return .all none (first ++ (own ++ last))) := by
  rw [parseDefinition, fieldConditions_append, ← singleton_append, fieldConditions_append]
  simp

/-! ## When tests and searches agree -/

theorem sameFields_filter_isNull {fields : List Value} :
    SameFields (fields.filter (!·.isNull)) fields ↔ .null ∉ fields := by
  constructor
  · intro same member
    obtain ⟨f, kept, isNull⟩ := mem_map.mp
      ((same .null).mpr (mem_map.mpr ⟨.null, member, rfl⟩))
    rw [Value.canonicalScalar_eq_null] at isNull
    subst isNull
    simp [Value.isNull] at kept
  · intro proper
    rw [filter_eq_self.mpr]
    · exact refl fields
    · intro f member
      cases f with
      | null => exact absurd member proper
      | _ => rfl

namespace FieldMapping

/-- A test and a search go to the same fields. A target that is null is searched but not tested. With
conditions the default must not be used up where the rule meets none of them, and must be the targets of
those that it meets otherwise. -/
def Uniform (m : FieldMapping) (field : Value) (values : FieldValues) : Prop :=
  match m with
  | .simple _ => True
  | .multi targets => .null ∉ targets
  | .conditional _ cases default =>
    (metTargets cases values = [] → ∀ left, default = some left → left ≠ [] ∧ .null ∉ left) ∧
    (metTargets cases values ≠ [] →
      SameFields ((default.getD [field]).filter (!·.isNull)) (metTargets cases values))

theorem uniform_iff {m : FieldMapping} {field : Value} (proper : field ≠ .null)
    (values : FieldValues) :
    SameFields ((m.nullFields field).filter (!·.isNull)) (m.valueFields field values) ↔
      m.Uniform field values := by
  have own : SameFields ([field].filter (!·.isNull)) [field] :=
    sameFields_filter_isNull.mpr (by simpa using proper.symm)
  cases m with
  | simple target => exact iff_of_true (refl _) trivial
  | multi targets => exact sameFields_filter_isNull
  | conditional document cases default =>
    by_cases unmet : metTargets cases values = []
    · rw [valueFields_of_unmet unmet]
      simp only [nullFields, Uniform, unmet, forall_const, ne_eq, not_true_eq_false, false_implies,
        and_true]
      rcases default with _ | _ | ⟨d, more⟩
      · simpa using own
      · -- a default that is used up leaves nothing to test
        have differs : ¬ SameFields [] [field] := fun same => by cases same.eq_nil
        simpa using differs
      · have left : SameFields ((d :: more).filter (!·.isNull)) (d :: more) ↔ .null ∉ d :: more :=
          sameFields_filter_isNull
        simpa using left
    · rw [valueFields_of_met unmet]
      simp [nullFields, Uniform, unmet]

end FieldMapping

theorem Key.toValue_ne_null (k : Key) : k.toValue ≠ .null := by
  cases k <;> simp [toValue]

namespace Config

theorem start_resolve_of_unnamed {c : Config} {field : Value} {e : Fault}
    (unnamed : c.fieldName field = .error e) (value : Value) (values : FieldValues) :
    (resolve field value values).start c = (.error e, c) := by
  unfold resolve
  rw [start_bind_of_ok (start_get c)]
  unfold fieldName at unnamed
  rcases found : c.fieldMapping field with e' | _ | m <;> rw [found] at unnamed <;> cases unnamed <;>
    rfl

theorem start_resolve_of_not_usable {c : Config} {field : Value} {m : FieldMapping}
    (mapped : c.fieldMapping field = .ok (some m)) {values : FieldValues}
    (unusable : m.usable values = false) (value : Value) :
    (resolve field value values).start c = (.error .wrongType, c) := by
  unfold resolve
  rw [start_bind_of_ok (start_get c)]
  simp only [mapped, FieldMapping.resolve_of_not_usable unusable, start_throw]

end Config

/-- A field of a definition has its own conditions, whatever fields stand beside it. A test for being
empty and a search for a value both fail if the field is not mapped. Otherwise the test fails only for a
number without a name, and the search only if a target cannot stand in a set. If neither fails, they go
to the same fields exactly if the mapping is uniform for the rule's values. -/
theorem fieldConditions_same_fields {v : Value} (present : v ≠ .null) (c : Config) (k : Key)
    (values₀ values : FieldValues) :
    (∀ table j before after w, parseDefinition table j (.map (before ++ (k, w) :: after)) = (do
      let first ← fieldConditions table before
      let own ← fieldConditions table [(k, w)]
      let last ← fieldConditions table after
      return .all none (first ++ (own ++ last)))) ∧
    (∀ e, c.fieldName k.toValue = .error e →
      (fieldConditions values₀ [(k, .null)]).start c = (.error e, c) ∧
      (fieldConditions values [(k, v)]).start c = (.error e, c)) ∧
    ∀ m, c.fieldMapping k.toValue = .ok (some m) →
      (m.nameless k = true →
        (fieldConditions values₀ [(k, .null)]).start c = (.error .wrongType, c)) ∧
      (m.usable values = false →
        (fieldConditions values [(k, v)]).start c = (.error .wrongType, c)) ∧
      (m.nameless k = false → m.usable values = true → ∃ tests searches c',
        (fieldConditions values₀ [(k, .null)]).start c = (.ok tests, c) ∧
        (fieldConditions values [(k, v)]).start c = (.ok searches, c') ∧
        (SameFields (Cond.testedFields tests) (Cond.comparedFields searches) ↔
          m.Uniform k.toValue values)) := by
  refine ⟨fun table j before after w => parseDefinition_field table j before after k w, ?_, ?_⟩
  · intro e unnamed
    rw [start_fieldConditions_null, start_fieldConditions_value present,
      Config.start_resolve_of_unnamed unnamed]
    exact ⟨by simp only [nullTests, unnamed], rfl⟩
  · intro m mapped
    refine ⟨?_, ?_, ?_⟩
    · intro nameless
      rw [start_fieldConditions_null, nullTests_eq mapped, if_pos nameless]
    · intro unusable
      rw [start_fieldConditions_value present, Config.start_resolve_of_not_usable mapped unusable]
      rfl
    · intro named usable
      obtain ⟨t, m', resolved, same⟩ := FieldMapping.resolve_fields usable k.toValue v
      have tested := start_fieldConditions_null values₀ k c
      rw [nullTests_eq mapped, if_neg (by simp [named])] at tested
      have searched : (fieldConditions values [(k, v)]).start c =
          (.ok [t], c.setMapping k.toValue m') := by
        rw [start_fieldConditions_value present, Config.start_resolve mapped resolved]
        rfl
      refine ⟨_, _, _, tested, searched, ?_⟩
      rw [Cond.testedFields_nullTests, SameFields.congr_right same]
      exact FieldMapping.uniform_iff k.toValue_ne_null values

/-- Where the rule does not meet the condition, the default is both tested and searched. -/
theorem fieldConditions_same_fields_default : ∃ tests searches c',
    (fieldConditions [("f", ["None"])] [("f", .null)]).start guardedConfig =
      (.ok tests, guardedConfig) ∧
    (fieldConditions [("f", ["v"])] [("f", "v")]).start guardedConfig = (.ok searches, c') ∧
    SameFields (Cond.testedFields tests) (Cond.comparedFields searches) := by
  have mapped : guardedConfig.fieldMapping "f" = .ok (some (.conditional
    [("g=w", "x"), ("default", "y")] [⟨"g", "w", ["x"]⟩] (some ["y"]))) := rfl
  have unmet : FieldMapping.metTargets [⟨"g", "w", ["x"]⟩] [("f", ["v"])] = [] := rfl
  obtain ⟨tests, searches, c', tested, searched, agree⟩ :=
    ((fieldConditions_same_fields (v := "v") nofun guardedConfig "f" [("f", ["None"])]
      [("f", ["v"])]).2.2 _ mapped).2.2 rfl rfl
  refine ⟨tests, searches, c', tested, searched, agree.mpr ⟨?_, fun met => absurd unmet met⟩⟩
  rintro - left same
  cases same
  exact ⟨by simp, by simp⟩

/-- Where the rule meets the condition, the default is tested but the target of the condition is
searched. -/
theorem parseDefinition_guarded_null :
    (parseDefinition [("f", ["None"]), ("g", ["w"])] .disj (.map [("f", .null), ("g", "w")])).start
        guardedConfig =
      (.ok (.all none [.isNull [.value "y"], .item "g" "w"]), guardedConfig) ∧
    (parseDefinition [("f", ["v"]), ("g", ["w"])] .disj (.map [("f", "v"), ("g", "w")])).start
        guardedConfig =
      (.ok (.all none [.item "x" "v", .item "g" "w"]), guardedConfig) ∧
    ¬ SameFields (Cond.testedFields [.isNull [.value "y"]]) (Cond.comparedFields [.item "x" "v"]) := by
  refine ⟨by with_unfolding_all rfl, by with_unfolding_all rfl, fun same => ?_⟩
  have tested : Value.text "y" ∈ [Value.text "x"] := (same "y").mp (List.mem_singleton.mpr rfl)
  simp at tested

end SigmaQuery
