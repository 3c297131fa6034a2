import SigmaQuery.Proofs.Definitions
import SigmaQuery.Proofs.Bracketing

/-!
# The trees of definitions

What an identifier or an operator over several definitions puts into a search: a tree without
negations, in brackets. Inside, junctions stand in each other without brackets: a list of maps gives
a disjunction of conjunctions, and a field with several targets a disjunction in a conjunction.
Where a definition is *flat*, it gives one junction of plain tests.

The tree of a definition depends on the mappings of the configuration up to defaults that are used
up, so it is the same from each state that a rule's parsing passes through.
-/

namespace SigmaQuery

open FaultM List Cond Detection FieldMapping

/-! ## Flat definitions -/

namespace Config

/-- A value of the field is searched for in one target. -/
def single (c : Config) (field : Value) (values : FieldValues) : Bool :=
  match c.fieldMapping field with
  | .ok (some m) => !m.branches values
  | _ => true

/-- The definition is one junction of plain tests: a list of plain values, or a map of fields with
one target each. -/
def flat (c : Config) (values : FieldValues) : Value → Bool
  | .list items => items.all Value.isPlain
  | .map entries => entries.all fun (k, v) => v.isNull || c.single k.toValue values
  | _ => true

end Config

/-- No tree at all: nothing is raw, nothing is exempt. -/
def nothing : Cond → Prop :=
  fun _ => False

variable {l : Bracketing} {t : Cond} {flat : Prop}

theorem Cond.Fits.of_nothing {raw : Cond → Prop} (fits : t.Fits nothing l) : t.Fits raw l :=
  fits.imp (fun _ none => none.elim) (.inl rfl)

/-- An invariant of the states in which definitions are parsed: their mappings are those of `c`, up
to used-up defaults. -/
structure Config.Holds (c : Config) (I : Config → Prop) : Prop where
  spent : ∀ {s : Config}, I s → s.spent = c.spent
  setMapping : ∀ {s : Config} {field : Value} {m m' : FieldMapping}, I s →
    s.fieldMapping field = .ok (some m) → m'.spent = m.spent → I (s.setMapping field m')

/-- A tree as definitions give it: it has no shared conjunction and no negation. If the definition
is flat, the tree has a layout of its own. -/
structure Cond.Defined (flat : Prop) (l : Bracketing) (t : Cond) : Prop where
  unshared : t.unshared = true
  loose : t.Fits nothing .loose
  fits : flat → t.Fits nothing l

theorem Cond.defined_build (j : Junction) {items : List Cond}
    (parts : ∀ t ∈ items, t.Defined flat .wrapped) : (j.build none items).Defined flat .inside where
  unshared := (unshared_build_none j items).mpr fun t member => (parts t member).unshared
  loose := (fits_build_iff j none items).mpr ⟨.loose, rfl, fun t member => (parts t member).loose⟩
  fits is := (fits_build_iff j none items).mpr
    ⟨.wrapped, rfl, fun t member => (parts t member).fits is⟩

theorem Cond.Defined.imp {flat flat' : Prop} {l : Bracketing} {t : Cond} (h : t.Defined flat l)
    (imp : flat' → flat) : t.Defined flat' l :=
  ⟨h.unshared, h.loose, fun is => h.fits (imp is)⟩

theorem Cond.defined_of_isLeaf (leaf : t.isLeaf = true) : t.Defined flat l where
  unshared := unshared_of_isLeaf leaf
  loose := fits_of_isLeaf leaf
  fits _ := fits_of_isLeaf leaf

theorem Cond.defined_nullTest {f : Cond} (leaf : f.isLeaf = true) :
    (nullTest f).Defined flat l where
  unshared := by cases f <;> simp_all [isLeaf, nullTest, unshared, unsharedAll]
  loose := by cases f <;> simp_all [isLeaf, nullTest, Fits]
  fits _ := by cases f <;> simp_all [isLeaf, nullTest, Fits]

theorem Cond.defined_anyTarget (targets : List Value) (value : Value) :
    (anyTarget targets value).Defined False .wrapped := by
  have items : ∀ t ∈ targets.map fun target => item target value,
      t.Defined False .wrapped := by
    intro t member
    obtain ⟨target, -, rfl⟩ := mem_map.mp member
    exact defined_of_isLeaf rfl
  have whole := defined_build .disj items
  exact ⟨whole.unshared, whole.loose, False.elim⟩

theorem Cond.defined_group (h : t.Defined flat .inside) : (group t).Defined flat .wrapped where
  unshared := h.unshared
  loose := ⟨.loose, rfl, h.loose⟩
  fits is := ⟨.inside, rfl, h.fits is⟩

section Definitions

variable {c : Config} {I : Config → Prop} (H : c.Holds I)
include H

theorem ensures_resolve (field value : Value) (values : FieldValues) :
    Ensures I (fun t => ((∃ target, t = .item target value) ∨
        ∃ targets, t = anyTarget targets value) ∧
      (c.single field values = true → ∃ target, t = .item target value))
      (Config.resolve field value values) := by
  intro s holds
  rcases Config.resolve_start_cases s field value values with
    ⟨e, run⟩ | ⟨m, m', t, found, resolved, run⟩
  · rw [run]
    exact ⟨holds, fun a t impossible => by cases impossible⟩
  · obtain ⟨same, shape⟩ := resolve_cases resolved
    rw [run]
    refine ⟨H.setMapping holds found same, ?_⟩
    rintro _ _ ⟨⟩
    have single : c.single field values = !m.branches values := by
      obtain ⟨m₁, found₁, same₁⟩ := Config.exists_fieldMapping (H.spent holds) found
      rw [Config.single, found₁]
      simp only [← branches_spent m₁, same₁, branches_spent m]
    rcases shape with ⟨branches, targets, rfl⟩ | ⟨-, target, rfl⟩
    · refine ⟨.inr ⟨targets, rfl⟩, fun one => ?_⟩
      rw [single, branches] at one
      cases one
    · exact ⟨.inl ⟨target, rfl⟩, fun _ => ⟨target, rfl⟩⟩

omit H in
theorem ensures_nullTests (flat : Prop) (k : Key) :
    Ensures I (fun tests => ∀ t ∈ tests, Cond.Defined flat .wrapped t)
      (do FaultM.ofExcept (nullTests (← get) k)) := by
  refine (ensures_get (I := I)).bind fun s _ => ensures_ofExcept fun tests h => ?_
  unfold nullTests at h
  split at h
  · cases h
  · cases h
    simpa using defined_nullTest rfl
  · cases h
    intro t member
    obtain ⟨f, -, rfl⟩ := mem_map.mp member
    exact defined_nullTest (by cases f <;> rfl)
  · cases h

/-- The conditions of fields are items, tests for empty fields, and disjunctions of items. The last
ones come from fields with several targets. -/
theorem ensures_fieldConditions (values : FieldValues) (entries : Entries) :
    Ensures I (fun ts => ∀ t ∈ ts, Cond.Defined (c.flat values (.map entries) = true) .wrapped t)
      (fieldConditions values entries) := by
  fun_induction fieldConditions values entries with
  | case1 => exact ensures_pure fun t member => absurd member (by simp)
  | case2 k rest ih =>
    have tests := ensures_nullTests (I := I) (c.flat values (.map ((k, .null) :: rest)) = true) k
    rw [← bind_assoc]
    refine tests.bind fun tests here => ih.map fun more there t member => ?_
    rcases mem_append.mp member with first | later
    · exact here t first
    · refine (there t later).imp fun flat => ?_
      simpa [Config.flat, Value.isNull] using flat
  | case3 k v rest present ih =>
    refine (ensures_resolve H k.toValue v values).bind fun test here => ih.map fun more there => ?_
    have known : c.flat values (.map ((k, v) :: rest)) = true →
        c.single k.toValue values = true ∧ c.flat values (.map rest) = true := by
      have notNull : v.isNull = false := by cases v <;> simp_all [Value.isNull]
      simp [Config.flat, notNull]
    intro t member
    rcases mem_cons.mp member with rfl | later
    · -- a junction comes only from a field with several targets, and then the map is not flat
      by_cases flat : c.flat values (.map ((k, v) :: rest)) = true
      · obtain ⟨target, rfl⟩ := here.2 (known flat).1
        exact defined_of_isLeaf rfl
      · rcases here.1 with ⟨target, rfl⟩ | ⟨targets, rfl⟩
        · exact defined_of_isLeaf rfl
        · exact (defined_anyTarget targets v).imp flat
    · exact (there t later).imp fun flat => (known flat).2

end Definitions

theorem defined_cons {c : Config} {values : FieldValues} {v : Value} {rest : List Value}
    {ts : List Cond} (here : t.Defined (c.flat values (.list (v :: rest)) = true) .wrapped)
    (there : ∀ x ∈ ts, Cond.Defined (c.flat values (.list rest) = true) .wrapped x) :
    ∀ x ∈ t :: ts, x.Defined (c.flat values (.list (v :: rest)) = true) .wrapped := by
  intro x member
  rcases mem_cons.mp member with rfl | later
  · exact here
  · refine (there x later).imp fun flat => ?_
    simp only [Config.flat, all_cons, Bool.and_eq_true] at flat
    exact flat.2

mutual

theorem ensures_parseDefinition {c : Config} {I : Config → Prop} (H : c.Holds I)
    (values : FieldValues) (j : Junction) (v : Value) :
    Ensures I (Cond.Defined (c.flat values v = true) .inside) (parseDefinition values j v) := by
  match v with
  | .list items =>
    rw [parseDefinition]
    exact (ensures_parseItems H values items).map fun ts parts => defined_build j parts
  | .map entries =>
    rw [parseDefinition]
    exact (ensures_fieldConditions H values entries).map fun ts parts =>
      defined_build .conj parts
  | .null | .bool _ | .int _ | .decimal _ | .text _ =>
    rw [parseDefinition]
    all_goals first | exact ensures_throw _ | simp

theorem ensures_parseItems {c : Config} {I : Config → Prop} (H : c.Holds I)
    (values : FieldValues) (items : List Value) :
    Ensures I (fun ts => ∀ t ∈ ts, Cond.Defined (c.flat values (.list items) = true) .wrapped t)
      (parseItems values items) := by
  match items with
  | [] =>
    rw [parseItems]
    exact ensures_pure fun t member => absurd member (by simp)
  | .text s :: rest | .int n :: rest =>
    rw [parseItems]
    exact (ensures_parseItems H values rest).map fun ts parts =>
      defined_cons (defined_of_isLeaf rfl) parts
  | .list _ :: rest | .map _ :: rest =>
    rw [parseItems]
    refine (ensures_parseDefinition H values .disj _).bind fun t here =>
      (ensures_parseItems H values rest).map fun ts parts => defined_cons ?_ parts
    exact ⟨here.unshared, here.loose, fun flat => by simp [Config.flat, Value.isPlain] at flat⟩
  | .null :: _ | .bool _ :: _ | .decimal _ :: _ =>
    rw [parseItems]
    all_goals first | exact ensures_throw _ | simp

end

/-! ## The nodes of a rule -/

namespace Detection

/-- All of the definitions are flat. -/
def FlatAll (d : Detection) (c : Config) (definitions : List Value) : Prop :=
  ∀ v ∈ definitions, c.flat d.values v = true

instance (d : Detection) (c : Config) (definitions : List Value) :
    Decidable (d.FlatAll c definitions) :=
  inferInstanceAs (Decidable (∀ v ∈ definitions, c.flat d.values v = true))

theorem flatAll_cons (d : Detection) (c : Config) (v : Value) (rest : List Value) :
    d.FlatAll c (v :: rest) ↔ c.flat d.values v = true ∧ d.FlatAll c rest :=
  forall_mem_cons

end Detection

section Nodes

variable {c : Config} {I : Config → Prop} (H : c.Holds I) (d : Detection)

theorem defined_group_cons {v : Value} {rest : List Value} {t : Cond} {ts : List Cond}
    (here : t.Defined (c.flat d.values v = true) .inside)
    (there : ∀ x ∈ ts, Cond.Defined (d.FlatAll c rest) .wrapped x) :
    ∀ x ∈ group t :: ts, x.Defined (d.FlatAll c (v :: rest)) .wrapped := by
  rw [d.flatAll_cons c]
  refine forall_mem_cons.mpr ⟨defined_group (here.imp And.left), fun x member => ?_⟩
  exact (there x member).imp And.right

include H

theorem ensures_parseNamed (j : Junction) (name : String) :
    Ensures I (Cond.Defined (d.FlatAll c (d.named name)) .inside) (d.parseNamed j name) := by
  unfold parseNamed named
  cases lookup (.text name) d.definitions with
  | none => exact ensures_throw _
  | some definition =>
    refine (ensures_parseDefinition H d.values j definition).imp fun t h => h.imp fun flat => ?_
    exact flat definition (by simp)

theorem ensures_parseEach (definitions : List Value) :
    Ensures I (fun ts => ∀ t ∈ ts, Cond.Defined (d.FlatAll c definitions) .wrapped t)
      (d.parseEach definitions) := by
  induction definitions with
  | nil => exact ensures_pure fun t member => absurd member (by simp)
  | cons v rest ih =>
    exact (ensures_parseDefinition H d.values .disj v).bind fun t here =>
      ih.map fun ts there => defined_group_cons d here there

theorem ensures_parseMatching (pattern : String) (definitions : Entries) :
    Ensures I (fun ts => ∀ t ∈ ts,
        Cond.Defined (d.FlatAll c (matching pattern definitions)) .wrapped t)
      (d.parseMatching pattern definitions) := by
  fun_induction parseMatching d pattern definitions with
  | case1 => exact ensures_pure fun t member => absurd member (by simp)
  | case2 => exact ensures_throw _
  | case3 name definition rest fits ih =>
    have taken : matching pattern ((.text name, definition) :: rest) =
        definition :: matching pattern rest := by
      simp [matching, fits]
    rw [taken]
    exact (ensures_parseDefinition H d.values .disj definition).bind fun t here =>
      ih.map fun ts there => defined_group_cons d here there
  | case4 name definition rest unfit ih =>
    have left : matching pattern ((.text name, definition) :: rest) = matching pattern rest := by
      simp [matching, unfit]
    rw [left]
    exact ih

theorem ensures_parseSeveral (j : Junction) {operand : Cond} {text : String}
    (read : operand.tokenText = .ok text) :
    Ensures I (fun n => ∃ t, n = .group t ∧ t.Defined (d.FlatAll c (d.several text)) .inside)
      (d.parseSeveral j operand) := by
  unfold parseSeveral several
  simp only [read, ofExcept_ok, pure_bind]
  split
  · exact (ensures_parseEach H d _).map fun ts parts => ⟨_, rfl, defined_build j parts⟩
  · split
    · exact (ensures_parseMatching H d text _).map fun ts parts =>
        ⟨_, rfl, defined_build j parts⟩
    · exact (ensures_parseNamed H d j text).map fun t h => ⟨t, rfl, h⟩

theorem ensures_parseIdentifier {operand : Cond} {text : String}
    (read : operand.tokenText = .ok text) :
    Ensures I (fun n => ∃ t, n = .group t ∧ t.Defined (d.FlatAll c (d.named text)) .inside)
      (d.parseIdentifier operand) := by
  unfold parseIdentifier
  simp only [read, ofExcept_ok, pure_bind]
  exact (ensures_parseNamed H d .disj text).map fun t h => ⟨t, rfl, h⟩

end Nodes

namespace Detection

/-- The tree of an identifier or of an operator over several definitions, with the mappings of `c`,
where a definition it takes is not flat. -/
def Branching (d : Detection) (c : Config) (n : Cond) : Prop :=
  ∃ (s s' : Config) (operand : Cond) (text : String), s.spent = c.spent ∧
    operand.tokenText = .ok text ∧
      ((¬ d.FlatAll c (d.named text) ∧ (d.parseIdentifier operand).start s = (.ok n, s')) ∨
        ∃ j, ¬ d.FlatAll c (d.several text) ∧ (d.parseSeveral j operand).start s = (.ok n, s'))

variable {d : Detection} {c : Config}

theorem Branching.defined {n : Cond} (node : d.Branching c n) :
    ∃ t, n = .group t ∧ t.Defined False .inside := by
  have H : c.Holds fun s => s.spent = c.spent :=
    ⟨id, fun same found alike => (Config.spent_setMapping found alike).trans same⟩
  obtain ⟨s, s', operand, text, same, read, ⟨-, run⟩ | ⟨j, -, run⟩⟩ := node
  · obtain ⟨t, is, h⟩ := (ensures_parseIdentifier H d read s same).2 n s' run
    exact ⟨t, is, h.imp False.elim⟩
  · obtain ⟨t, is, h⟩ := (ensures_parseSeveral H d j read s same).2 n s' run
    exact ⟨t, is, h.imp False.elim⟩

theorem lossless_branching : Cond.Lossless (d.Branching c) := by
  intro n ls node
  obtain ⟨t, rfl, h⟩ := node.defined
  exact lose_of_unshared (t := .group t) h.unshared ls

theorem Branching.loose {n : Cond} (node : d.Branching c n) : n.Fits (d.Branching c) .loose := by
  obtain ⟨t, rfl, h⟩ := node.defined
  exact ⟨.loose, rfl, h.loose.of_nothing⟩

theorem several_subset (d : Detection) (text : String) :
    d.several text ⊆ d.definitions.map (·.2) := by
  unfold several
  split
  · exact List.Subset.refl _
  · split
    · intro v taken
      obtain ⟨⟨k, v'⟩, member, found⟩ := mem_filterMap.mp taken
      refine mem_map.mpr ⟨_, member, ?_⟩
      cases k with
      | num n => cases found
      | text name =>
        dsimp only at found
        split at found
        · exact Option.some.inj found
        · cases found
    · exact named_subset d text

theorem not_branching (flat : d.FlatAll c (d.definitions.map (·.2))) (n : Cond) :
    ¬ d.Branching c n := by
  rintro ⟨s, s', operand, text, -, -, ⟨uneven, -⟩ | ⟨j, uneven, -⟩⟩
  · exact uneven fun v taken => flat v (named_subset d text taken)
  · exact uneven fun v taken => flat v (several_subset d text taken)

end Detection

end SigmaQuery
