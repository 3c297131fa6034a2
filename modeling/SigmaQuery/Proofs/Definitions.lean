import SigmaQuery.Condition.Search
import SigmaQuery.Proofs.Computation

/-!
# Definitions and the configuration

Parsing a definition changes a configuration in one way only: a mapping may lose its single default
target. The configuration with all such defaults used up stays the same, and it says by itself
whether a definition can be parsed.

Facts of this kind hold of a whole definition once they hold of the searches in its fields. The walk
over definitions, names and patterns is made once, for any such fact.
-/

namespace SigmaQuery

open List Detection

/-! ## Entries -/

section Entries

variable {α β : Type} {k : Key}

theorem lookup_cons (k : Key) (x : Key × α) (rest : List (Key × α)) :
    lookup k (x :: rest) = if x.1 = k then some x.2 else lookup k rest := rfl

theorem put_cons (k : Key) (v : α) (x : Key × α) (rest : List (Key × α)) :
    put k v (x :: rest) = if x.1 = k then (x.1, v) :: rest else x :: put k v rest := rfl

theorem lookup_map (f : α → β) (k : Key) (entries : List (Key × α)) :
    lookup k (entries.map fun (k, v) => (k, f v)) = (lookup k entries).map f := by
  induction entries with
  | nil => rfl
  | cons x rest ih =>
    rw [map_cons, lookup_cons, lookup_cons, ih, apply_ite (Option.map f)]
    rfl

theorem put_map (f : α → β) (k : Key) (v : α) (entries : List (Key × α)) :
    (put k v entries).map (fun (k, v) => (k, f v)) =
      put k (f v) (entries.map fun (k, v) => (k, f v)) := by
  induction entries with
  | nil => rfl
  | cons x rest ih =>
    rw [map_cons, put_cons, put_cons, ← ih, apply_ite (map _)]
    rfl

theorem put_of_lookup {v : α} {entries : List (Key × α)}
    (h : lookup k entries = some v) : put k v entries = entries := by
  induction entries with
  | nil => cases h
  | cons x rest ih =>
    rw [lookup_cons] at h
    split at h
    · rename_i same
      rw [put_cons, if_pos same, ← Option.some.inj h]
    · rename_i other
      rw [put_cons, if_neg other, ih h]

theorem mem_of_lookup {v : α} {entries : List (Key × α)} (h : lookup k entries = some v) :
    (k, v) ∈ entries := by
  induction entries with
  | nil => cases h
  | cons x rest ih =>
    rw [lookup_cons] at h
    split at h
    · rename_i same
      rw [← same, ← Option.some.inj h]
      exact mem_cons_self
    · exact mem_cons_of_mem x (ih h)

theorem lookup_put (k : Key) (v : α) (entries : List (Key × α)) :
    lookup k (put k v entries) = some v := by
  induction entries with
  | nil => exact if_pos rfl
  | cons x rest ih =>
    by_cases same : x.1 = k
    · rw [put_cons, if_pos same]
      exact if_pos same
    · rw [put_cons, if_neg same, lookup_cons, if_neg same, ih]

theorem lookup_put_of_ne {k' : Key} (other : k ≠ k') (v : α) (entries : List (Key × α)) :
    lookup k (put k' v entries) = lookup k entries := by
  induction entries with
  | nil => exact if_neg other.symm
  | cons x rest ih =>
    rw [put_cons, lookup_cons]
    split
    · rename_i same
      rw [lookup_cons, same, if_neg other.symm, if_neg other.symm]
    · rw [lookup_cons, ih]

end Entries

/-! ## Used-up defaults -/

/-- The mapping with a single default target used up. -/
def FieldMapping.spent : FieldMapping → FieldMapping
  | .conditional document cases (some [_]) => .conditional document cases (some [])
  | m => m

namespace FieldMapping

/-- A value is searched for in several targets. -/
def branches (m : FieldMapping) (values : FieldValues) : Bool :=
  match m with
  | .simple _ => false
  | .multi _ => true
  | .conditional _ cases default => match targetSet (metTargets cases values) with
    | [] => match default with
      | some (_ :: _ :: _) => true
      | _ => false
    | [_] => false
    | _ => true

variable {m m' : FieldMapping} {field value : Value} {values : FieldValues}

theorem resolve_cases {t : Cond} (h : m.resolve field value values = .ok (t, m')) :
    m'.spent = m.spent ∧ (m.branches values = true ∧ (∃ targets, t = anyTarget targets value) ∨
        m.branches values = false ∧ ∃ target, t = .item target value) := by
  cases m with
  | simple target =>
    cases h
    exact ⟨rfl, .inr ⟨rfl, target, rfl⟩⟩
  | multi targets =>
    cases h
    exact ⟨rfl, .inl ⟨rfl, targets, rfl⟩⟩
  | conditional document cases default =>
    simp only [resolve] at h
    split at h
    · cases h
    · split at h
      · rename_i found
        split at h <;> cases h <;> refine ⟨rfl, ?_⟩
        · exact .inr ⟨by simp [branches, found], _, rfl⟩
        · exact .inr ⟨by simp [branches, found], _, rfl⟩
        · exact .inr ⟨by simp [branches, found], _, rfl⟩
        · rename_i targets none one
          rcases targets with _ | ⟨x, _ | ⟨y, more⟩⟩
          · exact absurd rfl none
          · exact absurd rfl (one x)
          · exact .inl ⟨by simp [branches, found], _, rfl⟩
      · rename_i found
        cases h
        exact ⟨rfl, .inr ⟨by simp [branches, found], _, rfl⟩⟩
      · rename_i none one
        cases h
        refine ⟨rfl, .inl ⟨?_, _, rfl⟩⟩
        rcases several : targetSet (metTargets cases values) with _ | ⟨x, _ | ⟨y, more⟩⟩
        · exact absurd several none
        · exact absurd several (one x)
        · simp [branches, several]

theorem branches_spent (m : FieldMapping) (values : FieldValues) :
    m.spent.branches values = m.branches values := by
  unfold spent
  split <;> rfl

/-- Two mappings that agree once defaults are used up differ in a default at most. -/
theorem eq_or_default_of_spent (same : m'.spent = m.spent) :
    m' = m ∨ ∃ document cases a b, m = .conditional document cases (some a) ∧
      m' = .conditional document cases (some b) := by
  unfold spent at same
  split at same <;> split at same
  · cases same
    exact .inr ⟨_, _, _, _, rfl, rfl⟩
  · subst same
    exact .inr ⟨_, _, _, _, rfl, rfl⟩
  · subst same
    exact .inr ⟨_, _, _, _, rfl, rfl⟩
  · exact .inl same

/-- Whether a mapping can be resolved does not depend on its default. -/
theorem exists_resolve_spent : (∃ r, m.spent.resolve field value values = .ok r) ↔
      ∃ r, m.resolve field value values = .ok r := by
  unfold spent
  split
  · simp only [resolve]
    split
    · rfl
    · split <;> simp
  · rfl

end FieldMapping

namespace Config

/-- The field mappings with all single default targets used up. -/
def spent (c : Config) : List (Key × Option FieldMapping) :=
  c.fieldMappings.map fun (k, m) => (k, m.map FieldMapping.spent)

variable {c c' : Config} {field : Value} {m m' : FieldMapping}

theorem map_spent_fieldMapping (same : c.spent = c'.spent) (field : Value) :
    (c.fieldMapping field).map (·.map FieldMapping.spent) =
      (c'.fieldMapping field).map (·.map FieldMapping.spent) := by
  unfold fieldMapping
  cases field.keyUse with
  | unusable | unmatched => rfl
  | key k =>
    have known := congrArg (lookup k) same
    rw [spent, spent, lookup_map, lookup_map] at known
    cases left : lookup k c.fieldMappings <;> cases right : lookup k c'.fieldMappings <;>
      simp_all [Except.map]

theorem spent_setMapping (found : c.fieldMapping field = .ok (some m)) (same : m'.spent = m.spent) :
    (c.setMapping field m').spent = c.spent := by
  unfold fieldMapping at found
  unfold setMapping
  cases use : field.keyUse with
  | unusable | unmatched => rfl
  | key k =>
    simp only [use] at found ⊢
    cases known : lookup k c.fieldMappings with
    | none => rfl
    | some m? =>
      simp only [known, Except.ok.injEq] at found ⊢
      subst found
      show (put k (some m') c.fieldMappings).map _ = c.spent
      rw [put_map]
      refine put_of_lookup ?_
      rw [lookup_map, known]
      simp [same]

theorem exists_fieldMapping (same : c.spent = c'.spent)
    (found : c.fieldMapping field = .ok (some m)) :
    ∃ m', c'.fieldMapping field = .ok (some m') ∧ m'.spent = m.spent := by
  have alike := map_spent_fieldMapping same field
  rw [found] at alike
  rcases other : c'.fieldMapping field with e | _ | m' <;> rw [other] at alike
  · cases alike
  · cases alike
  · exact ⟨m', rfl, by simpa [Except.map] using alike.symm⟩

theorem start_resolve {value : Value} {values : FieldValues} {t : Cond}
    (found : c.fieldMapping field = .ok (some m))
    (resolved : m.resolve field value values = .ok (t, m')) :
    (resolve field value values).start c = (.ok t, c.setMapping field m') := by
  unfold resolve
  rw [FaultM.start_bind_of_ok (FaultM.start_get c)]
  simp only [found, resolved]
  rfl

/-- A search for a value fails and changes nothing, or resolves the field's mapping and keeps what
is left of it. -/
theorem resolve_start_cases (c : Config) (field value : Value) (values : FieldValues) :
    (∃ e, (resolve field value values).start c = (.error e, c)) ∨
      ∃ m m' t, c.fieldMapping field = .ok (some m) ∧ m.resolve field value values = .ok (t, m') ∧
        (resolve field value values).start c = (.ok t, c.setMapping field m') := by
  have got {f : Config → ConfigM Cond} : (get >>= f).start c = (f c).start c :=
    FaultM.start_bind_of_ok (FaultM.start_get c)
  rcases found : c.fieldMapping field with e | _ | m
  · exact .inl ⟨e, by simp only [resolve, got, found, FaultM.start_throw]⟩
  · exact .inl ⟨.noPart, by simp only [resolve, got, found, FaultM.start_throw]⟩
  · rcases resolved : m.resolve field value values with e | ⟨t, m'⟩
    · exact .inl ⟨e, by simp only [resolve, got, found, resolved, FaultM.start_throw]⟩
    · exact .inr ⟨m, m', t, rfl, resolved, start_resolve found resolved⟩

theorem steady_resolve (field value : Value) (values : FieldValues) :
    FaultM.Steady spent (resolve field value values) where
  keeps := by
    intro c
    rcases resolve_start_cases c field value values with ⟨e, run⟩ | ⟨m, m', t, found, resolved, run⟩
    · rw [run]
    · rw [run]
      exact spent_setMapping found (FieldMapping.resolve_cases resolved).1
  returns := by
    rintro c c' same ⟨t, u, run⟩
    rcases resolve_start_cases c field value values with ⟨e, run'⟩ | ⟨m, m₁, t, found, resolved, _⟩
    · rw [run'] at run
      cases run
    · obtain ⟨m', found', alike⟩ := exists_fieldMapping same found
      obtain ⟨⟨t', m₁'⟩, resolved'⟩ := FieldMapping.exists_resolve_spent.mp
        (alike ▸ FieldMapping.exists_resolve_spent.mpr ⟨_, resolved⟩)
      exact ⟨t', _, start_resolve found' resolved'⟩

theorem exists_nullTests (same : c.spent = c'.spent) {field : Key} {tests : List Cond}
    (h : nullTests c field = .ok tests) : ∃ tests', nullTests c' field = .ok tests' := by
  unfold nullTests fieldName at h
  rcases found : c.fieldMapping field.toValue with e | _ | m <;> simp only [found] at h
  · cases h
  · cases h
  · obtain ⟨m', found', alike⟩ := exists_fieldMapping same found
    unfold nullTests fieldName
    simp only [found']
    -- With a default there are several names, whatever is left of it.
    rcases FieldMapping.eq_or_default_of_spent alike with rfl | ⟨document, cases, a, b, rfl, rfl⟩
    · exact ⟨tests, h⟩
    · exact ⟨_, rfl⟩

end Config

open Config

open FaultM

theorem steady_nullTests (field : Key) :
    Steady spent (do FaultM.ofExcept (nullTests (← get) field)) where
  keeps := keeps_get.bind fun _ => keeps_ofExcept _
  returns := by
    rintro c c' same ⟨tests, u, run⟩
    rw [start_bind_of_ok (start_get c), start_ofExcept] at run
    obtain ⟨tests', ok⟩ := exists_nullTests same (congrArg Prod.fst run)
    exact ⟨tests', c', by rw [start_bind_of_ok (start_get c'), start_ofExcept, ok]⟩

/-! ## Walks over definitions -/

namespace Value

mutual

/-- The fields of a definition that are searched for values, at any depth of its lists. -/
def searchedFields : Value → List Key
  | .list items => searchedFieldsOf items
  | .map entries => (entries.filter fun e => !e.2.isNull).map (·.1)
  | _ => []

/-- The fields of several definitions that are searched for values. -/
def searchedFieldsOf : List Value → List Key
  | [] => []
  | v :: rest => searchedFields v ++ searchedFieldsOf rest

end

end Value

namespace Detection

/-- The definition that an identifier stands for. -/
def named (d : Detection) (name : String) : List Value :=
  (lookup (.text name) d.definitions).toList

/-- The definitions whose name matches a pattern. -/
def matching (pattern : String) (definitions : Entries) : List Value :=
  definitions.filterMap fun
    | (.text name, v) => if nameMatches pattern.toList name.toList then some v else none
    | (.num _, _) => none

/-- The definitions that the operand of an operator over several definitions stands for. -/
def several (d : Detection) (text : String) : List Value :=
  if text = "them" then d.definitions.map (·.2)
  else if isPattern text then matching text d.definitions
  else d.named text

theorem nameMatches_self (name : List Char) : nameMatches name name = true := by
  induction name with
  | nil => simp [nameMatches]
  | cons c rest ih =>
    by_cases star : c = '*'
    · subst star
      cases rest with
      | nil => simp [nameMatches]
      | cons x more => simp [nameMatches, ih]
    · rw [nameMatches] <;> simp_all

theorem named_subset (d : Detection) (name : String) :
    d.named name ⊆ d.definitions.map (·.2) := by
  intro v taken
  exact mem_map.mpr ⟨_, mem_of_lookup (Option.mem_toList.mp taken), rfl⟩

theorem named_subset_several (d : Detection) (text : String) : d.named text ⊆ d.several text := by
  intro v taken
  unfold several
  split
  · exact named_subset d text taken
  · split
    · have member := mem_of_lookup (Option.mem_toList.mp taken)
      exact mem_filterMap.mpr ⟨_, member, by simp [nameMatches_self]⟩
    · exact taken

end Detection

/-- A property of computations with the configuration that results, faults and tests for empty fields
have, and that two computations give to the one that puts their results together. -/
structure Compositional (P : ∀ {α : Type}, ConfigM α → Prop) : Prop where
  value : ∀ {α : Type} (a : α), P (pure a)
  fault : ∀ {α : Type} {e : Fault}, e ≠ .endless → P (throw e : ConfigM α)
  nullTests : ∀ field, P (do FaultM.ofExcept (nullTests (← get) field))
  both : ∀ {α β γ : Type} {m : ConfigM α} {k : ConfigM β}, P m → P k → ∀ f : α → β → γ,
    P (do let a ← m; return f a (← k))

/-- The searches in the fields of a definition have a property. -/
def SearchesHave (P : ∀ {α : Type}, ConfigM α → Prop) (values : FieldValues) (definition : Value) :
    Prop :=
  ∀ k ∈ definition.searchedFields, ∀ w, P (Config.resolve k.toValue w values)

/-- The searches in the fields of the definitions that an element mentions have a property. -/
def Detection.MentionsHave (d : Detection) (P : ∀ {α : Type}, ConfigM α → Prop) (x : Cond) : Prop :=
  ∀ text, x.tokenText = .ok text → ∀ v ∈ d.several text, SearchesHave P d.values v

namespace Compositional

variable {P : ∀ {α : Type}, ConfigM α → Prop} {values : FieldValues}

theorem searchesHave_cons {v : Value} {rest : List Value} :
    SearchesHave P values (.list (v :: rest)) ↔
      SearchesHave P values v ∧ SearchesHave P values (.list rest) := by
  simp only [SearchesHave, Value.searchedFields, Value.searchedFieldsOf]
  exact forall_mem_append

variable (walk : Compositional P)
include walk

theorem map {α β : Type} {m : ConfigM α} (h : P m) (f : α → β) : P (do return f (← m)) := by
  simpa using walk.both (walk.value ()) h fun _ a => f a

theorem of_fieldConditions {entries : Entries} (searches : SearchesHave P values (.map entries)) :
    P (fieldConditions values entries) := by
  fun_induction fieldConditions values entries with
  | case1 => exact walk.value []
  | case2 k rest ih =>
    have later : SearchesHave P values (.map rest) := fun k' member =>
      searches k' (by simpa [Value.searchedFields, Value.isNull] using member)
    simpa using walk.both (walk.nullTests k) (ih later) fun tests more => tests ++ more
  | case3 k v rest present ih =>
    have searched : v.isNull = false := by cases v <;> simp_all [Value.isNull]
    have fields : Value.searchedFields (.map ((k, v) :: rest)) =
        k :: Value.searchedFields (.map rest) := by
      simp [Value.searchedFields, searched]
    rw [SearchesHave, fields, forall_mem_cons] at searches
    exact walk.both (searches.1 v) (ih searches.2) fun test more => test :: more

omit walk in
mutual

theorem of_parseDefinition (walk : Compositional P) (j : Junction) (v : Value)
    (searches : SearchesHave P values v) : P (parseDefinition values j v) := by
  match v with
  | .list items =>
    rw [parseDefinition]
    exact walk.map (of_parseItems walk items searches) (j.build none)
  | .map entries =>
    rw [parseDefinition]
    exact walk.map (walk.of_fieldConditions searches) (Cond.all none)
  | .null | .bool _ | .int _ | .decimal _ | .text _ =>
    rw [parseDefinition]
    all_goals first | exact walk.fault (by simp) | simp

theorem of_parseItems (walk : Compositional P) (items : List Value)
    (searches : SearchesHave P values (.list items)) : P (parseItems values items) := by
  match items with
  | [] =>
    rw [parseItems]
    exact walk.value []
  | .text s :: rest =>
    rw [parseItems]
    exact walk.map (of_parseItems walk rest (searchesHave_cons.mp searches).2) (.value (.text s) :: ·)
  | .int n :: rest =>
    rw [parseItems]
    exact walk.map (of_parseItems walk rest (searchesHave_cons.mp searches).2) (.value (.int n) :: ·)
  | .list inner :: rest =>
    rw [parseItems]
    have parts := searchesHave_cons.mp searches
    exact walk.both (of_parseDefinition walk .disj (.list inner) parts.1)
      (of_parseItems walk rest parts.2) (· :: ·)
  | .map entries :: rest =>
    rw [parseItems]
    have parts := searchesHave_cons.mp searches
    exact walk.both (of_parseDefinition walk .disj (.map entries) parts.1)
      (of_parseItems walk rest parts.2) (· :: ·)
  | .null :: _ | .bool _ :: _ | .decimal _ :: _ =>
    rw [parseItems]
    all_goals first | exact walk.fault (by simp) | simp

end

variable {d : Detection}

theorem of_parseNamed (j : Junction) {name : String}
    (searches : ∀ v ∈ d.named name, SearchesHave P d.values v) : P (d.parseNamed j name) := by
  unfold parseNamed
  cases found : lookup (.text name) d.definitions with
  | none => exact walk.fault (by simp)
  | some definition =>
    exact walk.of_parseDefinition j definition (searches definition (by simp [named, found]))

theorem of_parseEach {definitions : List Value}
    (searches : ∀ v ∈ definitions, SearchesHave P d.values v) : P (d.parseEach definitions) := by
  induction definitions with
  | nil => exact walk.value []
  | cons v rest ih =>
    rw [forall_mem_cons] at searches
    exact walk.both (walk.of_parseDefinition .disj v searches.1) (ih searches.2) fun t ts => .group t :: ts

theorem of_parseMatching {pattern : String} {definitions : Entries}
    (searches : ∀ v ∈ matching pattern definitions, SearchesHave P d.values v) :
    P (d.parseMatching pattern definitions) := by
  fun_induction parseMatching d pattern definitions with
  | case1 => exact walk.value []
  | case2 => exact walk.fault (by simp)
  | case3 name definition rest fits ih =>
    simp only [matching, filterMap_cons, fits, if_true, forall_mem_cons] at searches
    exact walk.both (walk.of_parseDefinition .disj definition searches.1) (ih searches.2) fun t ts =>
      .group t :: ts
  | case4 name definition rest unfit ih =>
    refine ih fun v member => searches v ?_
    simpa [matching, unfit] using member

omit walk in
theorem tokenText_ne_endless {x : Cond} {e : Fault} (unread : x.tokenText = .error e) :
    e ≠ .endless := by
  cases x <;> simp_all [Cond.tokenText] <;> simp [← unread]

theorem of_parseSeveral (j : Junction) {operand : Cond} (searches : d.MentionsHave P operand) :
    P (d.parseSeveral j operand) := by
  unfold parseSeveral
  cases read : operand.tokenText with
  | error e => exact walk.fault (tokenText_ne_endless read)
  | ok text =>
    have mentioned := searches text read
    unfold several at mentioned
    simp only [ofExcept_ok, pure_bind]
    split at mentioned
    · rename_i them
      rw [if_pos them]
      exact walk.map (walk.of_parseEach mentioned) fun ts => Cond.group (j.build none ts)
    · rename_i other
      rw [if_neg other]
      split at mentioned
      · rename_i pattern
        rw [if_pos pattern]
        exact walk.map (walk.of_parseMatching mentioned) fun ts => Cond.group (j.build none ts)
      · rename_i plain
        rw [if_neg plain]
        exact walk.map (walk.of_parseNamed j mentioned) Cond.group

theorem of_parseIdentifier {name : Cond} (searches : d.MentionsHave P name) :
    P (d.parseIdentifier name) := by
  unfold parseIdentifier
  cases read : name.tokenText with
  | error e => exact walk.fault (tokenText_ne_endless read)
  | ok text =>
    simp only [ofExcept_ok, pure_bind]
    have named : ∀ v ∈ d.named text, SearchesHave P d.values v := fun v taken =>
      searches text read v (d.named_subset_several text taken)
    exact walk.map (walk.of_parseNamed .disj named) Cond.group

end Compositional

/-! ## Definitions -/

theorem compositional_steady : Compositional (Steady spent) where
  value := steady_pure
  fault _ := steady_throw _
  nullTests := steady_nullTests
  both := Steady.both

theorem steady_parseDefinition (values : FieldValues) (j : Junction) (v : Value) :
    Steady spent (parseDefinition values j v) :=
  compositional_steady.of_parseDefinition j v fun _ _ _ => steady_resolve _ _ _

namespace Detection

variable (d : Detection)

theorem steady_parseSeveral (j : Junction) (operand : Cond) :
    Steady spent (d.parseSeveral j operand) :=
  compositional_steady.of_parseSeveral j fun _ _ _ _ _ _ _ => steady_resolve _ _ _

theorem steady_parseIdentifier (name : Cond) : Steady spent (d.parseIdentifier name) :=
  compositional_steady.of_parseIdentifier fun _ _ _ _ _ _ _ => steady_resolve _ _ _

end Detection

theorem Config.keeps_simplify (t : Cond) : Keeps spent (simplify t) :=
  fun _ => rfl

end SigmaQuery
