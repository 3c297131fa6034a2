import SigmaQuery.Proofs.LogSourceMerging
import SigmaQuery.Proofs.Watches

/-!
# Names of fields

The target that lists fields gathers them rule by rule. What it has at the end are the fields of all
items and null tests in the first conditions of the rules, at any depth, and those of the aggregations. A
field that is no text cannot be listed.
-/

namespace SigmaQuery

open FaultM List Value

namespace FieldList

/-! ## Fields in a tree -/

/-- The fields that a leaf of a tree names. A list in the place of a field stands for its elements. -/
def leafFields : Cond → List Value
  | .item field _ => field.leaves
  | .isNull items => tested items
  | .notNull items => tested items
  | _ => []
where
  tested : List Cond → List Value
    | .value v :: _ => v.leaves
    | _ => [.null]

/-- The fields that a condition names, in the search and in the aggregation. -/
def fieldsIn (p : ParsedCondition) : List Value :=
  p.search.leaves.flatMap leafFields ++ (p.aggregation.map aggregationFields).getD []

/-- The fields that a rule names in its first condition. -/
def fieldsOf (r : Rule) : List Value :=
  (r.conditions.head?.map fieldsIn).getD []

/-- The fields that rules name in their first conditions. -/
def fieldsOfAll (history : List (Config × Rule)) : List Value :=
  history.flatMap fun x => fieldsOf x.2

theorem leavesOf_map_nil (vs : List Value) : leavesOf (vs.map fun _ => .list []) = [] := by
  induction vs with
  | nil => rfl
  | cons v rest ih => simpa [leavesOf, leaves] using ih

variable {vs : List Value} {t : FieldList} {v : Value}

theorem leaves_listFields (h : listFields vs = .ok v) : v.leaves = [] := by
  unfold listFields at h
  split at h
  · cases h
    exact leavesOf_map_nil vs
  · cases h

theorem leaves_itemField {field w : Value} (h : itemField field v = .ok w) :
    w.leaves = field.leaves := by
  unfold itemField at h
  split at h <;> cases h <;> simp [leaves, leavesOf]

theorem leaves_testedField {items : List Cond} (h : testedField items = .ok v) :
    v.leaves = leafFields.tested items := by
  unfold testedField at h
  split at h <;> cases h <;> simp [leafFields.tested, leaves, leavesOf]

mutual

/-- The nested lists that a tree is rendered to hold the fields of its leaves. -/
theorem leaves_render {v : Value} :
    (c : Cond) → render c = .ok v → v.leaves = c.leaves.flatMap leafFields
  | .all _ items, h | .any items, h => by
    rw [render] at h
    obtain ⟨vs, each, h⟩ := except_bind_eq_ok h
    cases h
    exact leavesOf_renderEach items each
  | .not (c :: _), h => leaves_render c h
  | .group inner, h => leaves_render inner h
  | .isNull items, h | .notNull items, h => (leaves_testedField h).trans (flatMap_singleton ..).symm
  | .seq items, h => leaves_listFields h
  | .item field v, h => (leaves_itemField h).trans (flatMap_singleton ..).symm
  | .value (.text _), h | .value (.int _), h => by
    cases h
    rfl
  | .value (.list vs), h => leaves_listFields h

theorem leavesOf_renderEach {vs : List Value} : (items : List Cond) → renderEach items = .ok vs →
    leavesOf vs = (Cond.leavesOfAll items).flatMap leafFields
  | [], h => by
    cases h
    rfl
  | c :: rest, h => by
    rw [renderEach] at h
    obtain ⟨v, first, h⟩ := except_bind_eq_ok h
    obtain ⟨vs, each, h⟩ := except_bind_eq_ok h
    cases h
    rw [leavesOf, Cond.leavesOfAll, flatMap_append, leaves_render c first,
      leavesOf_renderEach rest each]

end

/-! ## The set of fields -/

theorem text?_of_same {f g : Value} (h : f.same g = true) : f.text? = g.text? := by
  cases f <;> cases g <;> simp_all [same, text?, number?]

theorem mem_add {n : Option String} (known fields : List Value) :
    n ∈ (add known fields).map text? ↔ n ∈ (known ++ fields).map text? := by
  induction fields generalizing known with
  | nil => simp [add]
  | cons f rest ih =>
    rw [add, foldl_cons, ← add, ih]
    split
    case isTrue member =>
      obtain ⟨g, listed, same⟩ := any_eq_true.mp member
      have known : f.text? ∈ known.map text? :=
        text?_of_same same ▸ mem_map_of_mem listed
      simp only [map_append, map_cons, mem_append, mem_cons]
      exact ⟨Or.imp_right .inr, fun h => h.elim .inl fun h => h.elim (fun h => .inl (h ▸ known)) .inr⟩
    case isFalse => simp

/-! ## Rules in turn -/

theorem eq_of_addCondition {p : ParsedCondition} {r : Rule} {text : Option String}
    {w : Work FieldList} (run : (addCondition p).start ⟨t, r⟩ = (.ok text, w)) :
    w = ⟨{ t with fields := add t.fields (fieldsIn p) }, r⟩ := by
  obtain ⟨nested, u, found, run⟩ := start_bind_eq_ok.mp run
  obtain ⟨rendered, rfl⟩ := Prod.mk.inj found
  rw [leaves_render p.search rendered] at run
  change FaultM.start (if (fieldsIn p).all hashable = true then _ else _) _ = _ at run
  split at run
  · cases run
    rfl
  · cases run

theorem target_of_generate {c : Config} {r : Rule} {text : Option String}
    (done : (Target.generate c r (.fieldList t)).result = .ok text) :
    (Target.generate c r (.fieldList t)).target =
      .fieldList { t with fields := add t.fields (fieldsOf r) } := by
  rcases run : generate.start ⟨t, r⟩ with ⟨result, w⟩
  have done : result = .ok text := (congrArg Prod.fst run).symm.trans done
  rw [done] at run
  have kept : w = ⟨{ t with fields := add t.fields (fieldsOf r) }, r⟩ := by
    cases listed : r.conditions with
    | nil =>
      rw [generate, GenerateM.start_first_nil listed] at run
      cases run
      simp [fieldsOf, listed, add]
    | cons p rest =>
      rw [generate, GenerateM.start_first listed] at run
      obtain ⟨text, u, added, run⟩ := start_bind_eq_ok.mp run
      cases run
      rw [eq_of_addCondition added]
      simp [fieldsOf, listed]
  exact congrArg (fun x => Target.fieldList x.2.target) (run.trans (by rw [kept]))

/-- After rules that the target processes it has the fields of all of them, up to what is the same. -/
theorem after_eq {history : List (Config × Rule)}
    (converted : (Target.fieldList t).Converts history) :
    ∃ fields, (Target.fieldList t).after history = .fieldList { t with fields } ∧
      ∀ n, n ∈ fields.map text? ↔ n ∈ (t.fields ++ fieldsOfAll history).map text? := by
  induction history generalizing t with
  | nil => exact ⟨t.fields, rfl, by simp [fieldsOfAll]⟩
  | cons x rest ih =>
    obtain ⟨⟨text, done⟩, converted⟩ := converted
    rw [target_of_generate done] at converted
    obtain ⟨fields, after, same⟩ := ih converted
    refine ⟨fields, ?_, fun n => ?_⟩
    · rw [Target.after, foldl_cons, target_of_generate done]
      exact after
    · rw [same, fieldsOfAll, fieldsOfAll, flatMap_cons, ← append_assoc, map_append, mem_append, mem_add,
        ← mem_append, ← map_append]

theorem text_mem_iff {n : String} : some n ∈ vs.map text? ↔ .text n ∈ vs := by
  rw [mem_map]
  constructor
  · rintro ⟨v, member, text⟩
    cases v <;> cases text
    exact member
  · exact fun member => ⟨_, member, rfl⟩

theorem all_text_iff : (∀ v ∈ vs, v.text?.isSome = true) ↔ none ∉ vs.map text? := by
  simp [Option.isSome_iff_ne_none]

/-- **The names of fields**: after rules that a new target processes, its output are the fields that
their first conditions name, in order, each of them once and on a line of its own. If a field is no text
there is no output. -/
theorem finalize_after (o : Options) {history : List (Config × Rule)}
    (converted : (Target.fieldList { options := o }).Converts history) :
    ∃ names : List String, names.Pairwise (· < ·) ∧
      (∀ n, n ∈ names ↔ .text n ∈ fieldsOfAll history) ∧
      ((Target.fieldList { options := o }).after history).finalize.1 =
        if ∀ f ∈ fieldsOfAll history, f.text?.isSome = true then
          .ok (some ("\n".intercalate names))
        else .error .wrongType := by
  obtain ⟨fields, after, same⟩ := after_eq converted
  rw [nil_append] at same
  refine ⟨sortedSet (fields.filterMap Value.text?), pairwise_sortedSet _, fun n => ?_, ?_⟩
  · rw [mem_sortedSet, ← text_mem_iff, ← same, mem_filterMap, mem_map]
  · rw [after]
    have texts : (∀ f ∈ fields, f.text?.isSome = true) ↔
        ∀ f ∈ fieldsOfAll history, f.text?.isSome = true := by
      rw [all_text_iff, all_text_iff, same]
    show (finalize _).map some = _
    rw [finalize]
    simp only [filterMap_length_eq_length, texts]
    split <;> rfl

/-- A rule with fields below a negation and in an aggregation. -/
def nestedSearch : Rule where
  document := .map []
  detection := .ofEntries []
  conditions := [⟨.not [.group (.all none [.item "g" "v", .isNull [.value "f"], .value "w"])],
    some { function := some .count, field := some "f", group := some "h" }⟩]

theorem converts_nestedSearch :
    (Target.fieldList { options := {} }).Converts [(.empty, nestedSearch)] :=
  ⟨⟨some "", eq_ok_of_toOption rfl⟩, trivial⟩

theorem finalize_after_nestedSearch :
    (Target.fieldList { options := {} }).Converts [(.empty, nestedSearch)] ∧
    ∃ names : List String, names.Pairwise (· < ·) ∧
      (∀ n, n ∈ names ↔ Value.text n ∈ ([.text "g", .text "f", .text "h", .text "f"] : List Value)) ∧
      ((Target.fieldList { options := {} }).after [(.empty, nestedSearch)]).finalize.1 =
        .ok (some ("\n".intercalate names)) := by
  obtain ⟨names, sorted, listed, final⟩ := finalize_after {} converts_nestedSearch
  exact ⟨converts_nestedSearch, names, sorted, listed, final⟩

/-- A rule with a field that is mapped to a text and to a number. -/
def numberedField : Rule where
  document := .map []
  detection := .ofEntries []
  conditions := [⟨.any [.item "a" "v", .item (.int 5) "v"], none⟩]

/-- A field that is a number is gathered, but cannot be listed. -/
theorem finalize_numberedField :
    (Target.fieldList { options := {} }).Converts [(.empty, numberedField)] ∧
    ((Target.fieldList { options := {} }).after [(.empty, numberedField)]).finalize.1 =
      .error .wrongType :=
  ⟨⟨⟨some "", eq_ok_of_toOption rfl⟩, trivial⟩, rfl⟩

end FieldList

end SigmaQuery
