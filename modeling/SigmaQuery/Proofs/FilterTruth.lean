import Mathlib
import SigmaQuery.Proofs.FilterMeaning

/-!
# The truth of filters

A search is a tree without empty junctions, with one operand for each negation, and with a text, a whole
number or some of these as the value of a field. An assignment says which of its leaves are true. The
tests of a filter are true with the leaf that they stand for: a phrase in a field, or a pattern in the
keyword field below it, is the field with its value.

A search request takes every search, whatever the field was that it looked at last, and the filter is
true exactly if the search is. Every combination in it has one occurrence.
-/

namespace SigmaQuery

open List Cond

/-- A text, a whole number, or a list of some of these. -/
def Value.isSearched : Value → Bool
  | .list vs => !vs.isEmpty && vs.all Value.isPlain
  | v => v.isPlain

/-- What is true of an event: the values that its fields have, the values that are found in it, and the
fields that are not empty. -/
structure Assignment where
  item : String → Value → Prop
  plain : Value → Prop
  present : Value → Prop

namespace Cond

/-- The operand of a test for an empty field. -/
def isField : List Cond → Bool
  | [.value _] => true
  | _ => false

mutual

/-- The tree is a search. -/
def isSearch : Cond → Bool
  | .all _ items => !items.isEmpty && areSearches items
  | .any items => !items.isEmpty && areSearches items
  | .not items => items.length == 1 && areSearches items
  | .isNull items => isField items
  | .notNull items => isField items
  | .group inner => isSearch inner
  | .item (.text _) v => v.isSearched
  | .value v => v.isPlain
  | _ => false

/-- The trees are searches. -/
def areSearches : List Cond → Bool
  | [] => true
  | c :: rest => isSearch c && areSearches rest

end

end Cond

/-- The leaf is true. A field with a list of values has one of them. -/
def Assignment.leaf (a : Assignment) : Cond → Prop
  | .item (.text f) (.list vs) => ∃ v ∈ vs, a.item f v
  | .item (.text f) v => a.item f v
  | .value v => a.plain v
  | .isNull [.value f] => ¬ a.present f
  | .notNull [.value f] => a.present f
  | _ => False

namespace Elastic.SearchRequest

open FaultM

/-! ## Tests -/

/-- A pattern in a field. -/
def pattern (field : String) (v : Value) : Value :=
  record [("wildcard", .map [(.text field, v)])]

/-- A value in a field. -/
def phraseOf (field : String) (v : Value) : Value :=
  record [("match_phrase", .map [(.text field, v)])]

/-- The test is true. The fields that hold keywords have the name of the field below. -/
def Passes (a : Assignment) (keyword : String) (test : Value) : Prop :=
  (∃ f v, test = phraseOf f v ∧ a.item f v) ∨
  (∃ f v, test = pattern (f ++ "." ++ keyword) v ∧ a.item f v) ∨
  (∃ v, test = anywhere v ∧ a.plain v) ∨
  ∃ f, test = existsFilter f ∧ a.present f

section

variable {a : Assignment} {keyword : String}

/-- No two kinds of tests are alike: each goes by its own part of the assignment. -/
theorem passes_iff :
    (∀ f v, Passes a keyword (phraseOf f v) ↔ a.item f v) ∧
      (∀ f v, Passes a keyword (pattern (f ++ "." ++ keyword) v) ↔ a.item f v) ∧
      (∀ v, Passes a keyword (anywhere v) ↔ a.plain v) ∧
      ∀ f, Passes a keyword (existsFilter f) ↔ a.present f := by
  simp [Passes, phraseOf, pattern, anywhere, existsFilter, record]

end

/-! ## Filters with one occurrence -/

/-- Every combination in the filter has one occurrence, with a filter or with some. -/
inductive Single : Value → Prop
  | test {kind : String} (other : kind ≠ "bool") (body : Value) : Single (record [(kind, body)])
  | some {occurrence : String} (known : occurrence ∈ ["must", "should", "must_not"])
      {fs : List Value} (filled : fs ≠ []) (each : ∀ f ∈ fs, Single f) :
      Single (boolean occurrence (.list fs))
  | not {f : Value} (one : Single f) : Single (boolean "must_not" f)

section

variable {title v : Value} {k : Keywords} {keyword : String} {items : List Cond}

theorem exists_testOf (named : k.field = .text keyword) (f : String) (v : Value) :
    ∃ t, testOf k (.text f) v = .ok t ∧ ∀ a, Passes a keyword t ↔ a.item f v := by
  cases wild : k.isKeyword (.text f) v with
  | true =>
    refine ⟨pattern (f ++ "." ++ keyword) v, ?_, fun a => passes_iff.2.1 f v⟩
    simp [testOf, Keywords.searched, wild, Keywords.below, named]
    rfl
  | false =>
    refine ⟨phraseOf f v, ?_, fun a => passes_iff.1 f v⟩
    simp [testOf, Keywords.searched, wild]
    rfl

theorem exists_mapM_testOf (named : k.field = .text keyword) (f : String) (vs : List Value) :
    ∃ fs, vs.mapM (testOf k (.text f)) = .ok fs ∧ fs.length = vs.length ∧ ∀ t ∈ fs, Single t := by
  induction vs with
  | nil => exact ⟨[], rfl, rfl, forall_mem_nil _⟩
  | cons v rest ih =>
    obtain ⟨t, here, -⟩ := exists_testOf named f v
    obtain ⟨fs, there, long, each⟩ := ih
    refine ⟨t :: fs, ?_, congrArg (· + 1) long, forall_mem_cons.mpr ⟨?_, each⟩⟩
    · rw [mapM_cons, here, there]
      rfl
    · obtain ⟨kind, body, other, rfl⟩ := exists_of_testOf here
      exact .test other body

theorem exists_itemFilter (named : k.field = .text keyword) (f : String)
    (searched : v.isSearched = true) :
    ∃ t, itemFilter (testOf k) (.text f) v = .ok t ∧ Single t := by
  cases v with
  | list vs =>
    obtain ⟨fs, made, long, each⟩ := exists_mapM_testOf named f vs
    have filled : vs ≠ [] := by
      rintro rfl
      cases searched
    refine ⟨boolean "should" (.list fs), ?_, .some (by decide) ?_ each⟩
    · rw [itemFilter, made]
      rfl
    · exact length_pos_iff.mp (long ▸ length_pos_iff.mpr filled)
  | text _ | int _ =>
    obtain ⟨t, made, -⟩ := exists_testOf named f _
    obtain ⟨kind, body, other, rfl⟩ := exists_of_testOf made
    exact ⟨_, made, .test other body⟩
  | _ => cases searched

theorem exists_of_isField (one : isField items = true) : ∃ f, items = [.value f] := by
  unfold isField at one
  split at one
  · exact ⟨_, rfl⟩
  · cases one

theorem exists_boolean {occurrence : String} (known : occurrence ∈ ["must", "should", "must_not"])
    (filled : items ≠ [])
    (parts : ∃ fs, filtersOf title (testOf k) items = .ok fs ∧ fs.length = items.length ∧
      ∀ f ∈ fs, Single f) :
    ∃ f, (filtersOf title (testOf k) items).map (fun fs => boolean occurrence (.list fs)) = .ok f ∧
      Single f := by
  obtain ⟨fs, made, long, each⟩ := parts
  refine ⟨boolean occurrence (.list fs), by rw [made]; rfl, .some known ?_ each⟩
  exact length_pos_iff.mp (long ▸ length_pos_iff.mpr filled)

mutual

theorem exists_filterOf (named : k.field = .text keyword) {c : Cond} (search : c.isSearch = true) :
    ∃ f, filterOf title (testOf k) c = .ok f ∧ Single f := by
  match c, search with
  | .all o items, search | .any items, search =>
    rw [isSearch, Bool.and_eq_true] at search
    rw [filterOf]
    exact exists_boolean (by decide) (by simpa using search.1) (exists_filtersOf named search.2)
  | .not items, search =>
    rw [isSearch, Bool.and_eq_true] at search
    have filled : items ≠ [] := by
      rintro rfl
      cases search.1
    rw [filterOf]
    exact exists_boolean (by decide) filled (exists_filtersOf named search.2)
  | .isNull items, search =>
    rw [isSearch] at search
    obtain ⟨f, rfl⟩ := exists_of_isField search
    rw [filterOf]
    exact ⟨_, rfl, .not (.test (by decide) _)⟩
  | .notNull items, search =>
    rw [isSearch] at search
    obtain ⟨f, rfl⟩ := exists_of_isField search
    rw [filterOf]
    exact ⟨_, rfl, .test (by decide) _⟩
  | .group inner, search =>
    rw [isSearch] at search
    rw [filterOf]
    exact exists_filterOf named search
  | .item (.text f) v, search =>
    rw [isSearch] at search
    rw [filterOf]
    exact exists_itemFilter named f search
  | .value (.text s), _ | .value (.int n), _ =>
    rw [filterOf]
    exact ⟨_, rfl, .test (by decide) _⟩

theorem exists_filtersOf (named : k.field = .text keyword) {items : List Cond}
    (searches : areSearches items = true) :
    ∃ fs, filtersOf title (testOf k) items = .ok fs ∧ fs.length = items.length ∧
      ∀ f ∈ fs, Single f := by
  match items, searches with
  | [], _ => exact ⟨[], by rw [filtersOf], rfl, forall_mem_nil _⟩
  | c :: rest, searches =>
    rw [areSearches, Bool.and_eq_true] at searches
    obtain ⟨f, here, single⟩ := exists_filterOf named searches.1
    obtain ⟨fs, there, long, each⟩ := exists_filtersOf named searches.2
    refine ⟨f :: fs, ?_, congrArg (· + 1) long, forall_mem_cons.mpr ⟨single, each⟩⟩
    rw [filtersOf, here, there]
    rfl

end

/-! ## Truth -/

variable {a : Assignment}

theorem exists_passes_iff (named : k.field = .text keyword) (f : String) (v : Value) :
    (∃ t, testOf k (.text f) v = .ok t ∧ Passes a keyword t) ↔ a.item f v := by
  obtain ⟨t, made, truth⟩ := exists_testOf named f v
  rw [made, ← truth a]
  simp

theorem leafHolds_item_iff (named : k.field = .text keyword) (f : String)
    (searched : v.isSearched = true) :
    leafHolds (testOf k) (Passes a keyword) (.item (.text f) v) ↔ a.leaf (.item (.text f) v) := by
  cases v with
  | list vs => simp only [leafHolds, Assignment.leaf, exists_passes_iff named]
  | text _ | int _ => exact exists_passes_iff named f _
  | _ => cases searched

mutual

/-- A search is true exactly if it is true by the tests of its leaves. -/
theorem holds_leafHolds_iff (named : k.field = .text keyword) {c : Cond}
    (search : c.isSearch = true) :
    c.holds (leafHolds (testOf k) (Passes a keyword)) ↔ c.holds a.leaf := by
  match c, search with
  | .all _ items, search =>
    rw [isSearch, Bool.and_eq_true] at search
    rw [holds, holds]
    exact (eachHolds_leafHolds_iff named search.2).1
  | .any items, search =>
    rw [isSearch, Bool.and_eq_true] at search
    rw [holds, holds]
    exact (eachHolds_leafHolds_iff named search.2).2
  | .not items, search =>
    rw [isSearch, Bool.and_eq_true] at search
    rw [holds, holds]
    exact not_congr (eachHolds_leafHolds_iff named search.2).2
  | .isNull items, search | .notNull items, search =>
    rw [isSearch] at search
    obtain ⟨f, rfl⟩ := exists_of_isField search
    simp [holds, leafHolds, Assignment.leaf, testedField, passes_iff.2.2.2]
  | .group inner, search =>
    rw [isSearch] at search
    rw [holds, holds]
    exact holds_leafHolds_iff named search
  | .item (.text f) v, search =>
    rw [isSearch] at search
    simp only [holds]
    exact leafHolds_item_iff named f search
  | .value v, _ =>
    simp only [holds, leafHolds, Assignment.leaf]
    exact passes_iff.2.2.1 v

theorem eachHolds_leafHolds_iff (named : k.field = .text keyword) {items : List Cond}
    (searches : areSearches items = true) :
    (allHold (leafHolds (testOf k) (Passes a keyword)) items ↔ allHold a.leaf items) ∧
      (someHolds (leafHolds (testOf k) (Passes a keyword)) items ↔ someHolds a.leaf items) := by
  match items, searches with
  | [], _ => exact ⟨Iff.rfl, Iff.rfl⟩
  | c :: rest, searches =>
    rw [areSearches, Bool.and_eq_true] at searches
    obtain ⟨all, some⟩ := eachHolds_leafHolds_iff named searches.2
    simp only [allHold, someHolds, all, some, holds_leafHolds_iff named searches.1]
    exact ⟨trivial, trivial⟩

end

end

/-- **Filters mean what searches mean**: whatever field a search request looked at last, it returns a
filter for every search. Each combination in the filter has one occurrence, and under every assignment
the filter is true exactly if the search is. -/
theorem render_truth {s : SearchRequest} {keyword : String}
    (named : s.keywords.field = .text keyword) {c : Cond} (search : c.isSearch = true) :
    ∃ f b, (Target.esDsl s).render c = (.ok f, .esDsl (s.afterField b)) ∧ Single f ∧
      ∀ a : Assignment, Holds (Passes a keyword) f ↔ c.holds a.leaf := by
  obtain ⟨f, made, single⟩ : ∃ f, filterOf s.title (testOf s.keywords) c = .ok f ∧ Single f :=
    exists_filterOf named search
  obtain ⟨b, run⟩ := computes_render c s
  refine ⟨f, b, ?_, single, fun a => ?_⟩
  · have returned : (render c).start s = (.ok f, s.afterField b) := by
      rw [run, ← made]
      rfl
    show (((render c).start s).1.map id, Target.esDsl ((render c).start s).2) = _
    rw [returned]
    rfl
  · rw [holds_of_filterOf made, holds_leafHolds_iff named search]

/-- A search with each kind of node. -/
def sampleSearch : Cond :=
  .group (.all none [.item "f" (.list ["v", "w*", .int 5]), .not [.any [.value "x", .item "g" "y*"]],
    .isNull [.value "h"], .notNull [.value "k"]])

/-- The field `f` is searched for patterns in its keyword field and for all else in itself. -/
theorem render_truth_sample :
    sampleSearch.isSearch = true ∧
    ∃ f b, (Target.esDsl plain).render sampleSearch = (.ok f, .esDsl (plain.afterField b)) ∧ Single f ∧
      ∀ a : Assignment, Holds (Passes a "keyword") f ↔ sampleSearch.holds a.leaf :=
  ⟨by cbv, render_truth (by cbv) (by cbv)⟩

end Elastic.SearchRequest

end SigmaQuery
